import ImageBrowser.Proofs.Sessions.Channels
import Mathlib.Algebra.Order.BigOperators.Group.Finset
import Mathlib.Data.List.Basic

/-!
What becomes of subscriptions while notifications are under way, begun one inside another or by
anybody at any time, and listeners are subscribed and let go of in between. Main statement: whoever
is alive when a notification begins is called by it, once for each subscription, and nobody else is.
-/

namespace ImageBrowser

open Program (Does Keeps)
open ImageBrowser.System (observed diary Played)

namespace Subscribers

variable {ℓ : Type} [DecidableEq ℓ] {s : Subscribers ℓ} {l x : ℓ}

theorem isAlive_iff : s.isAlive l ↔ l ∉ s.abandoned ∨ l ∈ s.held := by
  simp [isAlive]

theorem isAlive_of_abandon (alive : (s.abandon l).isAlive x) : s.isAlive x := by
  rw [isAlive_iff] at alive ⊢
  exact alive.imp_left fun kept mem => kept (List.mem_cons_of_mem _ mem)

theorem isAlive_begin : s.begin.2.isAlive x ↔ s.isAlive x := by
  have held : x ∈ s.alive → s.isAlive x := fun mem => (List.mem_filter.mp mem).2
  rw [isAlive_iff, isAlive_iff] at *
  simp only [begin, forgetDead, List.mem_append]
  tauto

theorem held_finish (called : List ℓ) : (s.finish called).held = s.held.diff called :=
  (List.diff_eq_foldl s.held called).symm

theorem isAlive_of_finish {called : List ℓ} (alive : (s.finish called).isAlive x) :
    s.isAlive x := by
  rw [isAlive_iff] at alive ⊢
  refine alive.imp_right fun held => ?_
  rw [held_finish] at held
  exact List.diff_subset _ _ held

theorem count_held_finish (called : List ℓ) :
    (s.finish called).held.count x = s.held.count x - called.count x := by
  rw [held_finish, List.count_diff]

end Subscribers

inductive Notifying (ℓ : Type)
  | before
  | calling (called : List ℓ)
  | after

namespace Notifying

variable {ℓ : Type}

/-- Who is kept alive by a notification. -/
def calls : Notifying ℓ → List ℓ
  | calling called => called
  | before | after => []

@[simp] theorem calls_before : (before : Notifying ℓ).calls = [] := rfl

@[simp] theorem calls_calling (called : List ℓ) : (calling called).calls = called := rfl

@[simp] theorem calls_after : (after : Notifying ℓ).calls = [] := rfl

end Notifying

namespace Channel

def note : (c : Channel) → Notifying c.Hearer → (a : Action) → a.Reply → Notifying c.Hearer
  | selection, _, .step .beginSelectionNotice, called => .calling called
  | selection, _, .step (.endSelectionNotice _), _ => .after
  | tree, _, .step .beginTreeNotice, called => .calling called
  | tree, _, .step (.endTreeNotice _), _ => .after
  | _, s, _, _ => s

/-- A notification begins once, and ends for those whom it has called. -/
def lets : (c : Channel) → Notifying c.Hearer → Action → Prop
  | selection, s, .step .beginSelectionNotice => s = .before
  | selection, s, .step (.endSelectionNotice called) => s = .calling called
  | tree, s, .step .beginTreeNotice => s = .before
  | tree, s, .step (.endTreeNotice called) => s = .calling called
  | _, _, _ => True

def discipline (c : Channel) : Discipline (Notifying c.Hearer) := ⟨c.lets, c.note⟩

variable {c : Channel} {w v : World} {a : Action} {r : a.Reply} {s : Notifying c.Hearer}

theorem note_of_isElsewhere (elsewhere : c.isElsewhere a) : c.note s a r = s := by
  cases c
  all_goals
    cases a with
    | step t => cases t <;> first | rfl | cases elsewhere
    | _ => rfl

theorem lets_of_isElsewhere (elsewhere : c.isElsewhere a) : c.lets s a := by
  cases c
  all_goals
    cases a with
    | step t => cases t <;> trivial
    | _ => trivial

theorem subscribers_after (elsewhere : c.isElsewhere a) :
    c.subscribers (w.after a) = c.subscribers w := by
  cases c
  all_goals
    cases a with
    | step t => cases t <;> first | rfl | cases elsewhere
    | _ => rfl

theorem begun_ne_of_isElsewhere (elsewhere : c.isElsewhere a) (called : List c.Hearer) :
    (⟨a, r⟩ : Doing) ≠ c.begun called := by
  rintro same
  have action : a = (c.begun called).1 := congrArg Sigma.fst same
  subst action
  cases c <;> cases elsewhere

theorem begun_ne_ended (called called' : List c.Hearer) : c.begun called ≠ c.ended called' := by
  cases c <;> exact fun same => nomatch congrArg Sigma.fst same

theorem begun_injective {called called' : List c.Hearer} (same : c.begun called = c.begun called') :
    called = called' := by
  cases c
  all_goals
    cases same
    rfl

theorem of_answers (lets : c.lets s a) (answers : Answers w a r v) :
    (s = .before ∧ (⟨a, r⟩ : Doing) = c.begun (c.subscribers w).alive ∧
        c.note s a r = .calling (c.subscribers w).alive ∧
        c.subscribers v = (c.subscribers w).begin.2) ∨
      (∃ called, s = .calling called ∧ (⟨a, r⟩ : Doing) = c.ended called ∧
        c.note s a r = .after ∧ c.subscribers v = (c.subscribers w).finish called) ∨
      c.isElsewhere a ∧ c.note s a r = s ∧ c.subscribers v = c.subscribers w := by
  by_cases elsewhere : c.isElsewhere a
  · refine .inr (.inr ⟨elsewhere, note_of_isElsewhere elsewhere, ?_⟩)
    rw [answers.after_eq, subscribers_after elsewhere]
  cases answers with
  | step t =>
    cases c
    · cases t
      case beginSelectionNotice => exact .inl ⟨lets, rfl, rfl, rfl⟩
      case endSelectionNotice called => exact .inr (.inl ⟨called, lets, rfl, rfl, rfl⟩)
      all_goals exact absurd rfl elsewhere
    · cases t
      case beginTreeNotice => exact .inl ⟨lets, rfl, rfl, rfl⟩
      case endTreeNotice called => exact .inr (.inl ⟨called, lets, rfl, rfl, rfl⟩)
      all_goals exact absurd rfl elsewhere
  | _ => cases c <;> exact absurd rfl elsewhere

/-! What a notification does on its channel -/

theorem only_clearCache : Tree.clearCache.Only c.isElsewhere := by
  cases c
  all_goals
    exact .bind (Program.only_act rfl .done) fun _ => .bind (Program.only_act rfl .done) fun _ =>
      Program.only_act rfl .done

theorem only_opening : c.opening.Only c.isElsewhere := by
  cases c with
  | selection => exact .done ()
  | tree => exact only_clearCache

theorem only_call (subject : c.Subject) (l : c.Hearer) :
    (c.call subject l).Only c.isElsewhere := by
  cases c with
  | tree => exact Program.only_act rfl .ofExcept
  | selection =>
    cases l with
    | outside n => exact Program.only_act rfl .ofExcept
    | tree =>
      refine .bind only_clearCache fun _ => .bind (Program.only_act rfl .done) fun called => ?_
      exact .ensure (Program.only_tellAll (fun _ => Program.only_act rfl .ofExcept) called)
        (Program.only_act rfl .done)

theorem isElsewhere_of_calls {subject : c.Subject} {called : List c.Hearer}
    {works : List (List Doing)}
    (calls : List.Forall₂ (fun l work => (c.call subject l).Does work (.ok ())) called works) :
    ∀ d ∈ works.flatten, c.isElsewhere d.1 := by
  induction calls with
  | nil => simp
  | cons does _ ih => exact List.forall_mem_append.mpr ⟨(only_call subject _).does does, ih⟩

theorem Notified.begun_unique {subject : c.Subject} {called called' : List c.Hearer}
    {ds : List Doing} (notified : c.Notified subject called ds) (mem : c.begun called' ∈ ds) :
    called' = called := by
  obtain ⟨opened, works, opens, calls, rfl⟩ := notified
  have here : ¬ c.isElsewhere (c.begun called').1 := fun elsewhere =>
    begun_ne_of_isElsewhere elsewhere called' rfl
  obtain early | late := List.mem_append.mp mem
  · exact absurd (only_opening.does opens _ early) here
  obtain same | late := List.mem_cons.mp late
  · exact begun_injective same
  obtain calling | last := List.mem_append.mp late
  · exact absurd (isElsewhere_of_calls calls _ calling) here
  · exact absurd (List.mem_singleton.mp last) (begun_ne_ended _ _)

theorem keeps_of_only {α : Type} {p : Program α} (only : p.Only c.isElsewhere) :
    p.Keeps c.discipline (· = s) :=
  only.keeps (fun elsewhere _ => lets_of_isElsewhere elsewhere) fun _ elsewhere same =>
    (note_of_isElsewhere elsewhere).trans same

theorem obeys_ending {called : List c.Hearer} {post : Except Fault Unit → Notifying c.Hearer → Prop}
    (ended : post (.ok ()) .after) : (c.ending called).Obeys c.discipline (.calling called) post := by
  cases c
  all_goals exact ⟨rfl, fun _ => ended⟩

theorem obeys_notify (subject : c.Subject) :
    (c.notify subject).Obeys c.discipline .before fun _ _ => True := by
  have telling (called : List c.Hearer) :
      ((tellAll (c.call subject) called).ensure (c.ending called)).Obeys c.discipline
        (.calling called) fun _ _ => True := by
    rw [Program.obeys_ensure]
    have tells : (tellAll (c.call subject) called).Keeps c.discipline (· = .calling called) :=
      keeps_of_only (Program.only_tellAll (only_call subject) called)
    apply (tells _ rfl).mono
    rintro o _ rfl
    apply obeys_ending
    show (Program.ofExcept o).Obeys _ _ _
    rw [Program.obeys_ofExcept]
    trivial
  unfold notify
  rw [Program.obeys_bind]
  apply (keeps_of_only only_opening .before rfl).mono
  rintro (f | ⟨⟩) _ rfl
  · trivial
  · cases c
    all_goals exact ⟨rfl, fun called => telling called⟩

end Channel

/-- What happens around a channel: somebody subscribes, an owner lets go of a listener, or a
notification does something. -/
inductive Happening (c : Channel)
  | subscribed (l : c.Hearer)
  | abandoned (l : c.Hearer)
  | did (caller : Nat) (d : Doing)

namespace Channel

variable {c : Channel} {w v : World} {callers : List (Program Unit)} {past : List (Happening c)}

def subscriptions (past : List (Happening c)) : List c.Hearer :=
  past.filterMap fun
    | .subscribed l => some l
    | _ => none

def deeds (past : List (Happening c)) : List Event :=
  past.filterMap fun
    | .did i d => some ⟨i, d.1, d.2⟩
    | _ => none

def progress (past : List (Happening c)) (i : Nat) : Notifying c.Hearer :=
  observed c.note .before i (deeds past)

/-- A listener lives as long as its owner holds it, or a notification under way that calls it. -/
def Alive (past : List (Happening c)) (l : c.Hearer) : Prop :=
  .abandoned l ∉ past ∨ ∃ i, l ∈ (progress past i).calls

/-- What can come about from a state in which nobody has subscribed. At any time somebody alive may
subscribe, an owner may let go, a notification may begin, and any of those under way may go on; what
else happens leaves the subscribers alone. -/
inductive Reaches (c : Channel) : World → List (Program Unit) → List (Happening c) → Prop
  | init {w : World} (nobody : c.subscribers w = {}) : Reaches c w [] []
  | subscribe {w : World} {callers : List (Program Unit)} {past : List (Happening c)}
      {l : c.Hearer} (reach : Reaches c w callers past) (alive : (c.subscribers w).isAlive l) :
      Reaches c (c.update (·.subscribe l) w) callers (past ++ [.subscribed l])
  | abandon {w : World} {callers : List (Program Unit)} {past : List (Happening c)}
      (reach : Reaches c w callers past) (l : c.Hearer) :
      Reaches c (c.update (·.abandon l) w) callers (past ++ [.abandoned l])
  | start {w : World} {callers : List (Program Unit)} {past : List (Happening c)}
      (reach : Reaches c w callers past) (subject : c.Subject) :
      Reaches c w (callers ++ [c.notify subject]) past
  | act {w v : World} {callers : List (Program Unit)} {past : List (Happening c)} {i : Nat}
      {a : Action} {k : a.Reply → Program Unit} {r : a.Reply} (reach : Reaches c w callers past)
      (caller : callers[i]? = some (.act a k)) (answers : Answers w a r v) :
      Reaches c v (callers.set i (k r)) (past ++ [.did i ⟨a, r⟩])
  | other {w v : World} {callers : List (Program Unit)} {past : List (Happening c)}
      (reach : Reaches c w callers past) (same : c.subscribers v = c.subscribers w) :
      Reaches c v callers past

theorem front_of_concat {β : Type} {whole front rest : List β} {last : β}
    (split : whole ++ [last] = front ++ rest) :
    front = whole ++ [last] ∨ ∃ rest', whole = front ++ rest' := by
  rcases List.eq_nil_or_concat rest with rfl | ⟨rest', last', rfl⟩
  · exact .inl (by rw [split, List.append_nil])
  · rw [List.concat_eq_append, ← List.append_assoc] at split
    exact .inr ⟨rest', (List.append_inj' split rfl).1⟩

theorem filter_of_narrower {β : Type} {p q : β → Bool} {whole whole' : List β}
    (same : whole.filter p = whole'.filter p) (narrower : ∀ b, q b → p b) :
    whole.filter q = whole'.filter q := by
  have twice (bs : List β) : bs.filter q = (bs.filter p).filter q := by
    rw [List.filter_filter]
    refine List.filter_congr fun b _ => ?_
    cases picked : q b with
    | false => rfl
    | true => rw [narrower b picked, Bool.and_true]
  rw [twice whole, same, ← twice]

theorem sum_update {α : Type} (size : α → Nat) (f : Nat → α) {i n : Nat} (inside : i < n) (b : α) :
    ∑ j ∈ Finset.range n, size (Function.update f i b j) + size (f i) =
      ∑ j ∈ Finset.range n, size (f j) + size b := by
  have mem : i ∈ Finset.range n := Finset.mem_range.mpr inside
  have others : ∑ j ∈ (Finset.range n).erase i, size (Function.update f i b j) =
      ∑ j ∈ (Finset.range n).erase i, size (f j) :=
    Finset.sum_congr rfl fun j other => by rw [Function.update_of_ne (Finset.ne_of_mem_erase other)]
  rw [← Finset.add_sum_erase _ _ mem, ← Finset.add_sum_erase _ (fun j => size (f j)) mem, others,
    Function.update_self]
  omega

def Notifies (c : Channel) (p : Program Unit) : Prop := ∃ subject, p = c.notify subject

theorem deeds_append (past past' : List (Happening c)) :
    deeds (past ++ past') = deeds past ++ deeds past' := List.filterMap_append

theorem subscriptions_append (past past' : List (Happening c)) :
    subscriptions (past ++ past') = subscriptions past ++ subscriptions past' :=
  List.filterMap_append

theorem progress_did (past : List (Happening c)) (i : Nat) (d : Doing) :
    progress (past ++ [.did i d]) =
      Function.update (progress past) i (c.note (progress past i) d.1 d.2) := by
  funext j
  unfold progress
  rw [deeds_append]
  exact congrFun (System.observed_concat_eq_update c.note .before (deeds past) ⟨i, d.1, d.2⟩) j

theorem progress_of_deeds {e : Happening c} (quiet : deeds [e] = []) (past : List (Happening c)) :
    progress (past ++ [e]) = progress past := by
  unfold progress
  rw [deeds_append, quiet, List.append_nil]

namespace Reaches

theorem played (reach : c.Reaches w callers past) : Played c.Notifies callers (deeds past) := by
  induction reach with
  | init _ => exact .init
  | start _ subject ih => exact ih.start ⟨subject, rfl⟩
  | act _ caller _ ih =>
    rw [deeds_append]
    exact ih.act caller _
  | subscribe _ _ ih | abandon _ _ ih =>
    rw [deeds_append]
    exact (List.append_nil (deeds _)).symm ▸ ih
  | other _ _ ih => exact ih

theorem ends (reach : c.Reaches w callers past) {i : Nat} {p : Program Unit}
    (caller : callers[i]? = some p) (v : World) : p.Ends .unlimited v fun _ _ => True := by
  have aside : ∀ p, c.Notifies p → p.Aside := by
    rintro _ ⟨subject, rfl⟩
    cases c with
    | selection => exact Sessions.aside_announce subject
    | tree => exact Tree.aside_refresh
  exact Program.ends_of_aside (reach.played.only aside caller) v

theorem lets (reach : c.Reaches w callers past) {i : Nat} {a : Action}
    {k : a.Reply → Program Unit} (caller : callers[i]? = some (.act a k)) :
    c.lets (progress past i) a := by
  have obeys : ∀ p, c.Notifies p → p.Obeys c.discipline .before fun _ _ => True := by
    rintro _ ⟨subject, rfl⟩
    exact obeys_notify subject
  exact (reach.played.obeys obeys caller).1

theorem of_did {before after : List (Happening c)} {i : Nat} {d : Doing}
    (reach : c.Reaches w callers past) (split : past = before ++ .did i d :: after) :
    ∃ u callers' k v, c.Reaches u callers' before ∧ callers'[i]? = some (.act d.1 k) ∧
      Answers u d.1 d.2 v := by
  induction reach generalizing after with
  | init _ => simp at split
  | start _ _ ih | other _ _ ih => exact ih split
  | subscribe _ _ ih | abandon _ _ ih =>
    obtain ⟨_, ⟨⟩, _⟩ | ⟨_, earlier, _⟩ := System.history_append_singleton split
    exact ih earlier
  | act reach caller answers ih =>
    obtain ⟨rfl, ⟨⟩, _⟩ | ⟨_, earlier, _⟩ := System.history_append_singleton split
    · exact ⟨_, _, _, _, reach, caller, answers⟩
    · exact ih earlier

theorem exists_before {before after : List (Happening c)} (reach : c.Reaches w callers past)
    (split : past = before ++ after) : ∃ u callers', c.Reaches u callers' before ∧
      ∀ l, (c.subscribers w).isAlive l → (c.subscribers u).isAlive l := by
  induction reach generalizing after with
  | @init w nobody =>
    obtain ⟨rfl, rfl⟩ := List.append_eq_nil_iff.mp split.symm
    exact ⟨w, [], .init nobody, fun _ alive => alive⟩
  | start _ _ ih => exact ih split
  | other _ same ih =>
    rw [same]
    exact ih split
  | subscribe reach alive ih =>
    obtain rfl | ⟨_, earlier⟩ := front_of_concat split
    · exact ⟨_, _, reach.subscribe alive, fun _ alive => alive⟩
    · rw [subscribers_update]
      exact ih earlier
  | abandon reach l ih =>
    obtain rfl | ⟨_, earlier⟩ := front_of_concat split
    · exact ⟨_, _, reach.abandon l, fun _ alive => alive⟩
    · obtain ⟨u, callers', reach', mono⟩ := ih earlier
      rw [subscribers_update]
      exact ⟨u, callers', reach', fun x alive => mono x (Subscribers.isAlive_of_abandon alive)⟩
  | act reach caller answers ih =>
    obtain rfl | ⟨_, earlier⟩ := front_of_concat split
    · exact ⟨_, _, reach.act caller answers, fun _ alive => alive⟩
    · obtain ⟨u, callers', reach', mono⟩ := ih earlier
      refine ⟨u, callers', reach', fun x alive => mono x ?_⟩
      obtain ⟨-, -, -, begins⟩ | ⟨_, -, -, -, ends⟩ | ⟨-, -, same⟩ :=
        of_answers (reach.lets caller) answers
      · rw [begins] at alive
        exact Subscribers.isAlive_begin.mp alive
      · rw [ends] at alive
        exact Subscribers.isAlive_of_finish alive
      · rwa [same] at alive

theorem mem_abandoned (reach : c.Reaches w callers past) (l : c.Hearer) :
    l ∈ (c.subscribers w).abandoned ↔ .abandoned l ∈ past := by
  induction reach with
  | init nobody => simp [nobody]
  | start _ _ ih => exact ih
  | other _ same ih => rwa [same]
  | subscribe _ _ ih => simpa [Subscribers.subscribe] using ih
  | abandon _ _ ih =>
    simp only [subscribers_update, Subscribers.abandon, List.mem_cons, List.mem_append, ih,
      List.not_mem_nil, or_false, Happening.abandoned.injEq]
    exact or_comm
  | @act w v _ _ _ _ _ _ reach caller answers ih =>
    have kept : (c.subscribers v).abandoned = (c.subscribers w).abandoned := by
      obtain ⟨-, -, -, begins⟩ | ⟨_, -, -, -, ends⟩ | ⟨-, -, same⟩ :=
        of_answers (reach.lets caller) answers
      · rw [begins]; rfl
      · rw [ends]; rfl
      · rw [same]
    rw [kept, ih]
    simp

theorem progress_eq_before (reach : c.Reaches w callers past) {i : Nat}
    (outside : callers.length ≤ i) : progress past i = .before :=
  System.observed_of_absent (reach.played.caller_ne outside)

theorem count_held (reach : c.Reaches w callers past) (l : c.Hearer) :
    (c.subscribers w).held.count l =
      ∑ i ∈ Finset.range callers.length, (progress past i).calls.count l := by
  induction reach with
  | init nobody => simp [nobody]
  | other _ same ih => rwa [same]
  | subscribe _ _ ih | abandon _ _ ih =>
    rw [subscribers_update, progress_of_deeds rfl]
    exact ih
  | start reach _ ih =>
    rw [List.length_append, List.length_singleton, Finset.sum_range_succ, ← ih,
      reach.progress_eq_before (Nat.le_refl _)]
    rfl
  | @act w v callers past i a k r reach caller answers ih =>
    obtain ⟨inside, _⟩ := List.getElem?_eq_some_iff.mp caller
    have changed := sum_update (fun s => s.calls.count l) (progress past) inside
      (c.note (progress past i) a r)
    rw [List.length_set, progress_did]
    obtain ⟨fresh, -, noted, begins⟩ | ⟨called, under, -, noted, ends⟩ | ⟨-, noted, same⟩ :=
      of_answers (reach.lets caller) answers
    · -- only the caller that acts comes to call anybody
      rw [fresh] at changed noted
      rw [begins, Subscribers.begin, List.count_append, fresh, noted]
      rw [noted] at changed
      simp only [Notifying.calls_before, Notifying.calls_calling, List.count_nil] at changed ⊢
      omega
    · rw [under] at changed noted
      rw [ends, Subscribers.count_held_finish, under, noted]
      rw [noted] at changed
      simp only [Notifying.calls_calling, Notifying.calls_after, List.count_nil] at changed ⊢
      omega
    · rw [noted] at changed ⊢
      rw [same]
      omega

theorem isAlive_iff (reach : c.Reaches w callers past) (l : c.Hearer) :
    (c.subscribers w).isAlive l ↔ Alive past l := by
  rw [Subscribers.isAlive_iff, reach.mem_abandoned l, Alive]
  refine or_congr Iff.rfl ?_
  rw [← List.count_pos_iff, reach.count_held l, Finset.sum_pos_iff]
  constructor
  · rintro ⟨i, _, pos⟩
    exact ⟨i, List.count_pos_iff.mp pos⟩
  · rintro ⟨i, mem⟩
    refine ⟨i, ?_, List.count_pos_iff.mpr mem⟩
    by_contra outside
    rw [reach.progress_eq_before (by simpa using outside)] at mem
    cases mem

theorem alive_of_alive {before after : List (Happening c)} {l : c.Hearer}
    (reach : c.Reaches w callers (before ++ after)) (alive : Alive (before ++ after) l) :
    Alive before l := by
  obtain ⟨u, _, earlier, mono⟩ := reach.exists_before rfl
  exact (earlier.isAlive_iff l).mp (mono l ((reach.isAlive_iff l).mpr alive))

theorem filter_subscribed (reach : c.Reaches w callers past) :
    (c.subscribers w).subscribed.filter (c.subscribers w).isAlive =
      (subscriptions past).filter (c.subscribers w).isAlive := by
  induction reach with
  | init nobody =>
    rw [nobody]
    rfl
  | start _ _ ih => exact ih
  | other _ same ih => rwa [same]
  | @subscribe w _ past l _ _ ih =>
    have kept : ((c.subscribers w).subscribe l).isAlive = (c.subscribers w).isAlive := rfl
    rw [subscribers_update, kept, subscriptions_append, Subscribers.subscribe, List.filter_append,
      List.filter_append, ih]
    rfl
  | abandon _ l ih =>
    rw [subscribers_update, subscriptions_append]
    refine (filter_of_narrower ih fun _ => Subscribers.isAlive_of_abandon).trans ?_
    exact congrArg (List.filter _) (List.append_nil _).symm
  | @act w v _ past _ _ _ _ reach caller answers ih =>
    have same (d : Doing) (i : Nat) : subscriptions (past ++ [.did i d]) = subscriptions past := by
      rw [subscriptions_append]
      exact List.append_nil _
    rw [same]
    obtain ⟨-, -, -, begins⟩ | ⟨_, -, -, -, ends⟩ | ⟨-, -, kept⟩ :=
      of_answers (reach.lets caller) answers
    · -- the dead are forgotten, but they are not looked for
      rw [begins]
      refine filter_of_narrower (p := (c.subscribers w).isAlive) ?_ fun _ =>
        Subscribers.isAlive_begin.mp
      rw [← ih, Subscribers.begin, Subscribers.forgetDead, Subscribers.alive, List.filter_filter]
      simp only [Bool.and_self]
    · rw [ends]
      exact filter_of_narrower ih fun _ => Subscribers.isAlive_of_finish
    · rwa [kept]

theorem alive_of_subscribed {before after : List (Happening c)} {i : Nat}
    {called : List c.Hearer} {l : c.Hearer} (reach : c.Reaches w callers past)
    (mem : l ∈ (c.subscribers w).subscribed)
    (split : past = before ++ .did i (c.begun called) :: after) : Alive before l := by
  induction reach generalizing after with
  | init _ => simp at split
  | start _ _ ih => exact ih mem split
  | other _ same ih => exact ih (same ▸ mem) split
  | subscribe reach alive ih =>
    obtain ⟨_, ⟨⟩, _⟩ | ⟨_, rfl, _⟩ := System.history_append_singleton split
    rw [subscribers_update] at mem
    obtain old | new := List.mem_append.mp mem
    · exact ih old rfl
    · cases List.mem_singleton.mp new
      exact reach.alive_of_alive ((reach.isAlive_iff l).mp alive)
  | abandon _ _ ih =>
    obtain ⟨_, ⟨⟩, _⟩ | ⟨_, earlier, _⟩ := System.history_append_singleton split
    rw [subscribers_update] at mem
    exact ih mem earlier
  | @act w v _ past _ a _ r reach caller answers ih =>
    obtain ⟨rfl, event, _⟩ | ⟨_, earlier, _⟩ := System.history_append_singleton split
    · obtain ⟨rfl, begun⟩ := (Happening.did.injEq ..).mp event
      obtain ⟨-, -, -, begins⟩ | ⟨_, -, ended, -, -⟩ | ⟨elsewhere, -, -⟩ :=
        of_answers (reach.lets caller) answers
      · rw [begins] at mem
        exact (reach.isAlive_iff l).mp (List.mem_filter.mp mem).2
      · exact absurd (begun.trans ended) (begun_ne_ended _ _)
      · exact absurd begun.symm (begun_ne_of_isElsewhere elsewhere called)
    · refine ih ?_ earlier
      obtain ⟨-, -, -, begins⟩ | ⟨_, -, -, -, ends⟩ | ⟨-, -, kept⟩ :=
        of_answers (reach.lets caller) answers
      · rw [begins] at mem
        exact (List.mem_filter.mp mem).1
      · rwa [ends] at mem
      · rwa [kept] at mem

open Classical in
/-- A notification calls all subscriptions of those who are alive when it begins. -/
theorem called_eq {before after : List (Happening c)} {i : Nat} {called : List c.Hearer}
    (reach : c.Reaches w callers (before ++ .did i (c.begun called) :: after)) :
    called = (subscriptions before).filter (Alive before ·) := by
  obtain ⟨u, _, _, v, earlier, _, answers⟩ := reach.of_did rfl
  have alive : called = (c.subscribers u).alive := by
    cases c
    all_goals
      cases answers
      rfl
  rw [alive, Subscribers.alive, earlier.filter_subscribed]
  refine List.filter_congr fun l _ => ?_
  rw [Bool.eq_iff_iff, decide_eq_true_iff, earlier.isAlive_iff l]

theorem called_unique {i : Nat} {subject : c.Subject} {called called' : List c.Hearer}
    {ds : List Doing} (notified : c.Notified subject called (diary i (deeds past) ++ ds))
    (begun : .did i (c.begun called') ∈ past) : called' = called := by
  have mem : c.begun called' ∈ diary i (deeds past) ++ ds := by
    refine List.mem_append_left _ (System.mem_diary.mpr ?_)
    exact List.mem_filterMap.mpr ⟨_, begun, rfl⟩
  exact notified.begun_unique mem

open Classical in
/-- Every notification comes to its end, and it has then called all subscriptions of those who were
alive when it began, in order. Whoever is alive keeps its subscriptions; whoever has died is never
called by a notification that begins later, and is forgotten by it. -/
theorem subscriptions_called (reach : c.Reaches w callers past) :
    (∀ i p, callers[i]? = some p → (∀ v, p.Ends .unlimited v fun _ _ => True) ∧
      ∀ ds o, p.Does ds o → (∀ d ∈ diary i (deeds past) ++ ds, Doing.hasReturned d) →
        o = .ok () ∧ ∃ subject called, c.Notified subject called (diary i (deeds past) ++ ds) ∧
          ∀ called', .did i (c.begun called') ∈ past → called' = called) ∧
    (∀ before i called after, past = before ++ .did i (c.begun called) :: after →
      called = (subscriptions before).filter (Alive before ·)) ∧
    (c.subscribers w).subscribed.filter (Alive past ·) =
      (subscriptions past).filter (Alive past ·) ∧
    ∀ before after l, past = before ++ after → ¬ Alive before l →
      ∀ i called, .did i (c.begun called) ∈ after →
        l ∉ called ∧ l ∉ (c.subscribers w).subscribed := by
  refine ⟨?_, ?_, ?_, ?_⟩
  · intro i p caller
    refine ⟨reach.ends caller, fun ds o does back => ?_⟩
    obtain ⟨_, ⟨subject, rfl⟩, whole⟩ := reach.played.does caller
    obtain ⟨ended, called, notified⟩ := Channel.notified (whole ds o does) back
    exact ⟨ended, subject, called, notified, fun _ => called_unique notified⟩
  · rintro before i called after rfl
    exact reach.called_eq
  · have alive : (c.subscribers w).isAlive = fun l => decide (Alive past l) := by
      funext l
      rw [Bool.eq_iff_iff, decide_eq_true_iff, reach.isAlive_iff l]
    rw [← alive]
    exact reach.filter_subscribed
  · rintro before after l rfl dead i called mem
    obtain ⟨front, rest, rfl⟩ := List.append_of_mem mem
    rw [← List.append_assoc] at reach
    have died (alive : Alive (before ++ front) l) : False := by
      obtain ⟨_, _, earlier, _⟩ := reach.exists_before rfl
      exact dead (earlier.alive_of_alive alive)
    constructor
    · intro isCalled
      rw [reach.called_eq] at isCalled
      exact died (of_decide_eq_true (List.mem_filter.mp isCalled).2)
    · intro isSubscribed
      exact died (reach.alive_of_subscribed isSubscribed rfl)

end Reaches

def nested : List (Happening selection) :=
  [.subscribed (.outside 0), .subscribed (.outside 1), .abandoned (.outside 1),
    .did 0 (selection.begun [.outside 0]), .subscribed (.outside 2), .subscribed (.outside 2),
    .did 1 (selection.begun [.outside 0, .outside 2, .outside 2]), .abandoned (.outside 0),
    .did 1 ⟨.tell 0 (.selectionChanged none), .ok ()⟩,
    .did 1 ⟨.tell 2 (.selectionChanged none), .ok ()⟩,
    .did 1 ⟨.tell 2 (.selectionChanged none), .ok ()⟩,
    .did 1 (selection.ended [.outside 0, .outside 2, .outside 2]),
    .did 0 ⟨.tell 0 (.selectionChanged none), .ok ()⟩, .did 0 (selection.ended [.outside 0])]

theorem reaches_nested : ∃ w,
    selection.Reaches w [.done (), .done (), selection.notify none] nested ∧
      selection.subscribers w =
        ⟨[.outside 0, .outside 2, .outside 2], [.outside 0, .outside 1], []⟩ := by
  have reach : selection.Reaches {} [] [] := .init rfl
  have reach := reach.subscribe (l := Listener.outside 0) rfl
  have reach := reach.subscribe (l := Listener.outside 1) rfl
  have reach := reach.abandon (Listener.outside 1)
  have reach := reach.start none
  have reach := reach.act (i := 0) rfl (.step _ _)
  have reach := reach.subscribe (l := Listener.outside 2) rfl
  have reach := reach.subscribe (l := Listener.outside 2) rfl
  have reach := reach.start none
  have reach := reach.act (i := 1) rfl (.step _ _)
  have reach := reach.abandon (Listener.outside 0)
  have reach := reach.act (i := 1) rfl (.tell _ _ _ (.ok ()))
  have reach := reach.act (i := 1) rfl (.tell _ _ _ (.ok ()))
  have reach := reach.act (i := 1) rfl (.tell _ _ _ (.ok ()))
  have reach := reach.act (i := 1) rfl (.step _ _)
  have reach := reach.act (i := 0) rfl (.tell _ _ _ (.ok ()))
  have reach := reach.act (i := 0) rfl (.step _ _)
  have reach := reach.start none
  exact ⟨_, reach, rfl⟩

open Classical in
theorem subscriptions_called_when_nested : ∃ w callers,
    let past := nested ++ [.did 2 (selection.begun [.outside 2, .outside 2])]
    selection.Reaches w callers past ∧
      (∃ subject, selection.Notified subject [.outside 0, .outside 2, .outside 2]
        (diary 1 (deeds past))) ∧
      (subscriptions nested).filter (Alive nested ·) = [.outside 2, .outside 2] ∧
      ¬ Alive nested (.outside 0) ∧
      (selection.subscribers w).subscribed.filter (Alive past ·) =
        (subscriptions past).filter (Alive past ·) ∧
      .outside 0 ∉ (selection.subscribers w).subscribed := by
  obtain ⟨w, reach, there⟩ := reaches_nested
  have dead : ¬ Alive nested (.outside 0) := by
    rw [← reach.isAlive_iff, there]
    decide
  have alive : (selection.subscribers w).alive = [.outside 2, .outside 2] := by
    rw [there]
    decide
  have reach := reach.act (i := 2) rfl (.step _ .beginSelectionNotice)
  have begun : (w.step .beginSelectionNotice).1 = ([.outside 2, .outside 2] : List Listener) := alive
  rw [begun] at reach
  obtain ⟨calls, begins, keeps, forgets⟩ := reach.subscriptions_called
  obtain ⟨-, ended⟩ := calls 1 (.done ()) rfl
  obtain ⟨-, subject, called, notified, same⟩ := ended [] (.ok ()) .done (by decide +kernel)
  cases same [.outside 0, .outside 2, .outside 2] (by simp [nested])
  rw [List.append_nil] at notified
  exact ⟨_, _, reach, ⟨subject, notified⟩, (begins nested 2 _ [] rfl).symm, dead, keeps,
    (forgets nested _ (.outside 0) rfl dead 2 _ List.mem_cons_self).2⟩

end Channel

end ImageBrowser
