import ImageBrowser.Proofs.Calls.Exclusion
import ImageBrowser.Proofs.Sessions.Dealings
import ImageBrowser.Proofs.Sessions.Upkeep
import Mathlib.Data.List.Pairwise

/-!
Any number of callers that go about the sessions as a caller may, in any interleaving. Where every
login brings a connection that was not there before, a session in play is known by its connection,
and nobody has been told of a session that its caller has not listed yet.
-/

namespace ImageBrowser

namespace World

variable {w : World} {h : Handle}

def handles (w : World) : List Handle := w.selection.enrolled.values.map (·.handle)

def connections (w : World) : List Connection := w.handles.map (·.connection)

theorem mem_handles : h ∈ w.handles ↔ ∃ e ∈ w.selection.enrolled.entries, e.2.handle = h := by
  simp [handles, Table.values]

theorem mem_handles_of_session? {id : Value} (found : w.selection.session? id = some h) :
    h ∈ w.handles := by
  obtain ⟨e, enrolled, rfl⟩ := Option.map_eq_some_iff.mp found
  exact mem_handles.mpr ⟨_, Table.mem_entries_of_find? enrolled, rfl⟩

theorem mem_handles_of_subset {selection : Selection}
    (fewer : selection.enrolled.entries ⊆ w.selection.enrolled.entries)
    (mem : h ∈ ({ w with selection := selection } : World).handles) : h ∈ w.handles := by
  obtain ⟨e, entry, same⟩ := mem_handles.mp mem
  exact mem_handles.mpr ⟨e, fewer entry, same⟩

theorem mem_handles_register {g : Handle} {metadata : Value}
    (mem : h ∈ ({ w with selection := w.selection.register g metadata } : World).handles) :
    h = g ∨ h ∈ w.handles := by
  obtain ⟨e, entry, same⟩ := mem_handles.mp mem
  rcases Table.mem_entries_insert entry with rfl | old
  · exact .inl same.symm
  · exact .inr (mem_handles.mpr ⟨e, old, same⟩)

/-- Sessions are listed by being opened or adopted. -/
theorem mem_handles_step {t : Step} (mem : h ∈ (w.step t).2.handles) :
    h ∈ w.handles ∨
      (∃ c id metadata, t = .openSession c id metadata ∧ h = ⟨w.nextHandle, id, c⟩) ∨
      ∃ metadata, t = .adopt h metadata := by
  cases t with
  | openSession c id metadata =>
    have numbered : w.handles = ({ w with nextHandle := w.nextHandle + 1 } : World).handles := rfl
    rw [numbered]
    exact (mem_handles_register mem).symm.imp_right fun same => .inl ⟨c, id, metadata, rfl, same⟩
  | adopt g metadata =>
    rcases mem_handles_register mem with rfl | old
    · exact .inr (.inr ⟨metadata, rfl⟩)
    · exact .inl old
  | removeSession id =>
    exact .inl (mem_handles_of_subset (Sessions.entries_remove_subset w.selection id) mem)
  | selectSession id =>
    exact .inl (mem_handles_of_subset (Sessions.entries_select_subset w.selection id) mem)
  | clearSessions => exact .inl (mem_handles_of_subset (List.nil_subset _) mem)
  | _ => exact .inl mem

end World

def Tells (h : Handle) : Doing → Prop
  | ⟨.step .selectedSession, found⟩ | ⟨.step (.sessionOf _), found⟩ => found = some h
  | ⟨.step (.removeSession _), removed⟩ => ∃ changed, removed = some (h, changed)
  | _ => False

theorem session?_of_remove {s : Selection} {id : Value} {h : Handle} {changed : Bool}
    (removed : (s.remove id).1 = some (h, changed)) : s.session? id = some h := by
  unfold Selection.remove at removed
  split at removed
  · cases removed
  · next found =>
    cases removed
    exact found

theorem mem_handles_of_tells {w v : World} {a : Action} {r : a.Reply} {h : Handle}
    (answers : Answers w a r v) (tells : Tells h ⟨a, r⟩) : h ∈ w.handles := by
  cases answers with
  | step t =>
    cases t with
    | selectedSession =>
      obtain ⟨id, _, found⟩ := Option.bind_eq_some_iff.mp tells
      exact World.mem_handles_of_session? found
    | sessionOf id => exact World.mem_handles_of_session? tells
    | removeSession id =>
      obtain ⟨changed, removed⟩ := tells
      exact World.mem_handles_of_session? (session?_of_remove removed)
    | _ => exact absurd tells id
  | _ => exact absurd tells id

def Event.connection? : Event → Option Connection
  | ⟨_, .login _, .ok c⟩ => some c
  | _ => none

namespace System

variable {α : Type}

def logins (history : List Event) : List Connection := history.filterMap Event.connection?

/-- The session is listed, or somebody has been told of it. -/
def InPlay (s : System α) (h : Handle) : Prop :=
  h ∈ s.world.handles ∨ ∃ e ∈ s.history, Tells h ⟨e.action, e.reply⟩

theorem inPlay_of_told {s : System α} {h : Handle} {i : Nat} (told : h.Told (diary i s.history)) :
    s.InPlay h := by
  obtain mem | ⟨id, mem⟩ := told
  · exact .inr ⟨_, mem_diary.mp mem, rfl⟩
  · exact .inr ⟨_, mem_diary.mp mem, rfl⟩

theorem inPlay_of_removed {s : System α} {h : Handle} {i : Nat}
    (removed : h.Removed (diary i s.history)) : s.InPlay h := by
  obtain ⟨id, changed, mem⟩ := removed
  exact .inr ⟨_, mem_diary.mp mem, changed, rfl⟩

variable {starts : Program α → Prop} {w : World} {s : System α}

theorem eq_of_loggedIn {history : List Event} (fresh : (logins history).Nodup) {c : Connection}
    {i j : Nat} (first : c.LoggedIn (diary i history)) (second : c.LoggedIn (diary j history)) :
    i = j := by
  obtain ⟨l, mem⟩ := first
  obtain ⟨l', mem'⟩ := second
  by_contra other
  have differ := List.pairwise_filterMap.mp fresh
  have symmetric : Std.Symm fun e e' : Event => ∀ c, e.connection? = some c → ∀ c',
      e'.connection? = some c' → c ≠ c' :=
    ⟨fun _ _ differ c brought c' brought' => (differ c' brought' c brought).symm⟩
  have different : (⟨i, .login l, .ok c⟩ : Event) ≠ ⟨j, .login l', .ok c⟩ :=
    fun same => other (congrArg Event.caller same)
  exact differ.forall (mem_diary.mp mem) (mem_diary.mp mem') different c rfl c rfl rfl

/-- Sessions in play are known by their connections, and no caller owns one of these. -/
structure Apart (w : World) (s : System α) : Prop where
  placed : ∀ {h}, s.InPlay h →
    h.connection ∈ w.connections ∨ ∃ i, h.connection.LoggedIn (diary i s.history)
  alike : ∀ {g h}, s.InPlay g → s.InPlay h → g.connection = h.connection → g = h
  owned : ∀ {i c h}, c.Owned (diary i s.history) → s.InPlay h → h.connection ≠ c

section Concat

variable {history : List Event} {e : Event} {c : Connection} {i : Nat}

theorem mem_logins : c ∈ logins history ↔ ∃ i, c.LoggedIn (diary i history) := by
  simp only [logins, List.mem_filterMap]
  constructor
  · rintro ⟨⟨i, a, r⟩, mem, brought⟩
    unfold Event.connection? at brought
    split at brought
    · next j l c' same =>
      cases same
      cases brought
      exact ⟨i, l, mem_diary.mpr mem⟩
    · cases brought
  · rintro ⟨i, l, mem⟩
    exact ⟨_, mem_diary.mp mem, rfl⟩

theorem logins_concat : logins (history ++ [e]) = logins history ++ e.connection?.toList := by
  cases brought : e.connection? <;> simp [logins, brought]

theorem loggedIn_concat (loggedIn : c.LoggedIn (diary i (history ++ [e]))) :
    c.LoggedIn (diary i history) ∨ e.connection? = some c := by
  obtain ⟨l, mem⟩ := loggedIn
  rcases List.mem_append.mp (mem_diary.mp mem) with old | new
  · exact .inl ⟨l, mem_diary.mpr old⟩
  · cases List.mem_singleton.mp new
    exact .inr rfl

theorem mem_diary_concat {d : Doing} (mem : d ∈ diary i history) :
    d ∈ diary i (history ++ [e]) :=
  mem_diary.mpr (List.mem_append_left _ (mem_diary.mp mem))

theorem owns_concat (owns : c.Owned (diary i (history ++ [e]))) :
    c.Owned (diary i history) ∨ e.connection? = some c := by
  refine (loggedIn_concat owns.1).imp_left fun loggedIn => ⟨loggedIn, ?_⟩
  rintro ⟨id, metadata, mem⟩
  exact owns.2 ⟨id, metadata, mem_diary_concat mem⟩

end Concat

theorem inPlay_act {i : Nat} {a : Action} {r : a.Reply} {v : World} {callers : List (Program α)}
    (answers : Answers s.world a r v) (adopts : ∀ h metadata, a ≠ .step (.adopt h metadata))
    {h : Handle} (inPlay : InPlay ⟨v, callers, s.history ++ [⟨i, a, r⟩]⟩ h) :
    s.InPlay h ∨ ∃ c id metadata, a = .step (.openSession c id metadata) ∧
      h = ⟨s.world.nextHandle, id, c⟩ := by
  obtain listed | ⟨e, mem, tells⟩ := inPlay
  · cases answers with
    | step t =>
      obtain old | ⟨c, id, metadata, rfl, same⟩ | ⟨metadata, rfl⟩ := World.mem_handles_step listed
      · exact .inl (.inl old)
      · exact .inr ⟨c, id, metadata, rfl, same⟩
      · exact absurd rfl (adopts h metadata)
    | _ => exact .inl (.inl listed)
  · rcases List.mem_append.mp mem with old | new
    · exact .inl (.inr ⟨e, old, tells⟩)
    · cases List.mem_singleton.mp new
      exact .inl (.inl (mem_handles_of_tells answers tells))

theorem apart_act {removes : Prop} {i : Nat} {a : Action} {r : a.Reply} {v : World}
    {callers : List (Program α)} (apart : Apart w s) (answers : Answers s.world a r v)
    (allowed : (dealing removes).allows (diary i s.history) a)
    (fresh : (w.connections ++ logins (s.history ++ [⟨i, a, r⟩])).Nodup) :
    Apart w ⟨v, callers, s.history ++ [⟨i, a, r⟩]⟩ := by
  have adopts (h : Handle) (metadata : Value) : a ≠ .step (.adopt h metadata) := by
    rintro rfl
    exact allowed
  have owns {c id metadata} (opens : a = .step (.openSession c id metadata)) :
      c.Owned (diary i s.history) := by
    subst opens
    exact allowed
  constructor
  · intro h inPlay
    obtain old | ⟨c, id, metadata, opens, rfl⟩ := inPlay_act answers adopts inPlay
    · refine (apart.placed old).imp_right ?_
      rintro ⟨j, l, mem⟩
      exact ⟨j, l, mem_diary_concat mem⟩
    · obtain ⟨l, mem⟩ := (owns opens).1
      exact .inr ⟨i, l, mem_diary_concat mem⟩
  · intro g h inPlay inPlay' same
    obtain old | ⟨c, id, metadata, opens, rfl⟩ := inPlay_act answers adopts inPlay
    · obtain old' | ⟨c, id, metadata, opens, rfl⟩ := inPlay_act answers adopts inPlay'
      · exact apart.alike old old' same
      · exact absurd same (apart.owned (owns opens) old)
    · obtain old' | ⟨c', id', metadata', opens', rfl⟩ := inPlay_act answers adopts inPlay'
      · exact absurd same.symm (apart.owned (owns opens) old')
      · cases opens.symm.trans opens'
        rfl
  · intro j c h owned inPlay same
    obtain old | ⟨c', id, metadata, opens, rfl⟩ := inPlay_act answers adopts inPlay
    · obtain before | brought := owns_concat owned
      · exact apart.owned before old same
      · rw [logins_concat, brought, ← List.append_assoc] at fresh
        have placed : h.connection ∈ w.connections ++ logins s.history :=
          List.mem_append.mpr ((apart.placed old).imp_right mem_logins.mpr)
        rw [same] at placed
        exact (List.disjoint_of_nodup_append fresh) placed List.mem_cons_self
    · subst same
      subst opens
      obtain before | brought := loggedIn_concat owned.1
      · rw [logins_concat, ← List.append_assoc] at fresh
        have single : (logins s.history).Nodup := fresh.of_append_left.of_append_right
        cases eq_of_loggedIn single before allowed.1
        have opened : ⟨i, .step (.openSession c' id metadata), r⟩ ∈
            s.history ++ [⟨i, .step (.openSession c' id metadata), r⟩] :=
          List.mem_append_right _ List.mem_cons_self
        exact owned.2 ⟨id, metadata, mem_diary.mpr opened⟩
      · cases brought

theorem apart_of_reachable {removes : Prop} {post : Except Fault α → List Doing → Prop}
    (begins : ∀ p, starts p → p.Obeys (dealing removes) [] post) (reach : Reachable starts w s)
    (fresh : (w.connections ++ logins s.history).Nodup) : Apart w s := by
  induction reach with
  | init =>
    have listed {h : Handle} (inPlay : InPlay (⟨w, [], []⟩ : System α) h) : h ∈ w.handles := by
      obtain listed | ⟨_, none, _⟩ := inPlay
      · exact listed
      · contradiction
    constructor
    · exact fun inPlay => .inl (List.mem_map_of_mem (listed inPlay))
    · exact fun inPlay inPlay' same =>
        List.inj_on_of_nodup_map fresh.of_append_left (listed inPlay) (listed inPlay') same
    · rintro i c h ⟨⟨l, none⟩, _⟩
      contradiction
  | start _ _ ih =>
    have apart := ih fresh
    exact ⟨apart.placed, apart.alike, apart.owned⟩
  | @act s i a k r v reach caller answers ih =>
    have earlier : (w.connections ++ logins s.history).Nodup := by
      rw [logins_concat, ← List.append_assoc] at fresh
      exact fresh.of_append_left
    exact apart_act (ih earlier) answers (reach.obeys begins caller).1 fresh

theorem standingAfter_diary {n i : Nat} {history : List Event} :
    standingAfter n (diary i history) = observed (Standing.after n) .outside i history := by
  induction history using List.reverseRecOn with
  | nil => rfl
  | append_singleton history e ih =>
    rw [diary, observed_concat, observed_concat]
    split
    · rw [← ih]
      exact standingAfter_concat
    · exact ih

theorem admits_of_dealing {removes : Prop} {done : List Doing} {a : Action} {n : Nat}
    (allowed : (dealing removes).allows done a) : (standingAfter n done).admits n a := by
  cases a with
  | step t =>
    cases t with
    | claim m =>
      intro _
      have outside : standingAfter n done = .outside := allowed.1 n
      rw [outside]
      decide
    | release m | enter m | leave m =>
      rintro rfl
      exact allowed
    | _ => trivial
  | _ => trivial

theorem holds_or_told {removes : Prop} {done : List Doing} {a : Action} {r : a.Reply} {n : Nat}
    (allowed : (dealing removes).allows done a)
    (holds : (standingAfter n (done ++ [⟨a, r⟩])).holds) :
    (standingAfter n done).holds ∨ ∃ h : Handle, h.Told done ∧ h.number = n := by
  rw [standingAfter_concat] at holds
  cases a with
  | step t =>
    cases t with
    | claim m =>
      rcases eq_or_ne m n with rfl | other
      · exact .inr allowed.2
      · rw [(Standing.after_of_ne other _).1] at holds
        exact .inl holds
    | release m | enter m | leave m =>
      left
      rcases eq_or_ne m n with rfl | other
      · rw [show standingAfter m done = _ from allowed]
        rfl
      · obtain ⟨_, released, entered, left⟩ := Standing.after_of_ne other (standingAfter n done)
        simpa only [released, entered, left] using holds
    | _ => exact .inl holds
  | _ => exact .inl holds

theorem told_of_holds {removes : Prop} {post : Except Fault α → List Doing → Prop}
    (begins : ∀ p, starts p → p.Obeys (dealing removes) [] post) (reach : Reachable starts w s)
    {n i : Nat} (holds : (standingAfter n (diary i s.history)).holds) :
    ∃ h : Handle, h.Told (diary i s.history) ∧ h.number = n := by
  induction reach with
  | init => cases holds
  | start _ _ ih => exact ih holds
  | @act s j a k r v reach caller answers ih =>
    rw [diary, observed_concat] at holds ⊢
    split at holds
    · next same =>
      cases same
      have allowed : (dealing removes).allows (diary j s.history) a := (reach.obeys begins caller).1
      obtain ⟨h, told, number⟩ := (holds_or_told allowed holds).elim ih id
      rw [if_pos rfl]
      exact ⟨h, told.concat, number⟩
    · next other =>
      rw [if_neg other]
      exact ih holds

/-- A session that is claimed at all is claimed by one caller, whose part is all that is counted. -/
theorem alone_of_reachable {removes : Prop} {post : Except Fault α → List Doing → Prop}
    (begins : ∀ p, starts p → p.Obeys (dealing removes) [] post) (reach : Reachable starts w s)
    {h : Handle} (idle : w.depth h.number = 0) :
    Standing.Alone (h.standing s.history) (s.world.depth h.number) := by
  apply Handle.alone_of_admits idle reach
  intro s i a k reach caller
  have allowed : (dealing removes).allows (diary i s.history) a := (reach.obeys begins caller).1
  rw [Handle.standing, ← standingAfter_diary]
  exact admits_of_dealing allowed

end System

end ImageBrowser
