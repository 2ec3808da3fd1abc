import ImageBrowser.Proofs.Sessions.Announcements

/-!
What the last notification says. Whoever changes the selection tells the listeners afterwards, while
others may change it again, so that a notification can arrive when it is no longer true. Main
statement: when all is over, the selection is the one that the last notification found, and it is
the one that the notification tells of unless it was changed to another before that arrived.
-/

namespace ImageBrowser

theorem sameId_iff {a b : Option Value} :
    sameId a b ↔ a.map Value.canonical = b.map Value.canonical :=
  decide_eq_true_iff

theorem sameId_comm {a b : Option Value} : sameId a b ↔ sameId b a := by
  rw [sameId_iff, sameId_iff, eq_comm]

theorem sameId_congr {a b : Option Value} (same : sameId a b) (x : Option Value) :
    sameId x a ↔ sameId x b := by
  rw [sameId_iff, sameId_iff, sameId_iff.mp same]

/-! What is selected after a history -/

theorem World.replay_append (w : World) (history history' : List Event) :
    w.replay (history ++ history') = (w.replay history).replay history' :=
  List.foldl_append

theorem selected_of_change {w : World} {e : Event} {i : Nat} {id : Option Value}
    (changes : changesOf w [e] = [(i, id)]) : (w.after e.action).selection.selected = id := by
  unfold changesOf Selection.changed? at changes
  split at changes
  · cases changes
  · cases changes
    rfl

theorem sameId_last_change (w : World) (history : List Event) :
    sameId ((changesOf w history).getLast?.elim w.selection.selected (·.2))
      (w.replay history).selection.selected := by
  induction history using List.reverseRecOn with
  | nil => exact Selection.sameId_rfl
  | append_singleton history e ih =>
    rw [changesOf_append, World.replay_concat]
    cases changed : (w.replay history).selection.changed?
        ((w.replay history).after e.action).selection with
    | none =>
      have still : changesOf (w.replay history) [e] = [] := by simp [changesOf, changed]
      have same : sameId (w.replay history).selection.selected
          ((w.replay history).after e.action).selection.selected := by
        by_contra other
        rw [Selection.changed?_of_not_sameId other] at changed
        cases changed
      rw [still, List.append_nil]
      exact (sameId_congr same _).mp ih
    | some id =>
      have one : changesOf (w.replay history) [e] = [(e.caller, id)] := by simp [changesOf, changed]
      rw [one, List.getLast?_concat, selected_of_change one]
      exact Selection.sameId_rfl

/-! Changes and notifications in one history -/

theorem split_at_places {α : Type} {earlier since before after : List α} {a b : α}
    (same : earlier ++ a :: since = before ++ b :: after) :
    b ∈ earlier ∨ a = b ∨
      ∃ between, before = earlier ++ a :: between ∧ since = between ++ b :: after := by
  obtain ⟨_ | ⟨c, rest⟩, rfl, tail⟩ | ⟨_ | ⟨c, rest⟩, rfl, tail⟩ :=
    List.append_eq_append_iff.mp same
  · exact .inr (.inl (List.cons.inj tail).1)
  · obtain ⟨rfl, rfl⟩ := List.cons.inj tail
    exact .inr (.inr ⟨rest, rfl, rfl⟩)
  · exact .inr (.inl (List.cons.inj tail).1.symm)
  · obtain ⟨rfl, rfl⟩ := List.cons.inj tail
    exact .inl (by simp)

theorem notMem_of_filterMap_eq_nil {α β : Type} {f : α → Option β} {as : List α} {a : α} {b : β}
    (none : as.filterMap f = []) (picked : f a = some b) : a ∉ as := by
  intro mem
  have nothing := List.filterMap_eq_nil_iff.mp none a mem
  rw [picked] at nothing
  cases nothing

namespace System

variable {n times : Nat} {history before after : List Event}

theorem notices_ne_nil_of_change {e : Event} {id : Option Value}
    (announced : Doing.Announced n times (diary e.caller history)) (heard : 0 < times)
    (split : history = before ++ e :: after)
    (change : Doing.change? ⟨e.action, e.reply⟩ = some id) : noticesOf n after ≠ [] := by
  have here : diary e.caller history =
      diary e.caller before ++ ⟨e.action, e.reply⟩ :: diary e.caller after := by
    rw [split, diary_append, diary_cons, if_pos rfl]
  generalize diary e.caller history = ds at announced here
  cases announced with
  | quiet still silent =>
    rw [here] at still
    exact absurd (by simp) (notMem_of_filterMap_eq_nil still change)
  | @change first rest d id' _ _ still _ still' told =>
    obtain ⟨-, -, rfl⟩ := (List.append_cons_inj_of_notMem
      (notMem_of_filterMap_eq_nil still change) (notMem_of_filterMap_eq_nil still' change)).mp here
    intro none
    have unheard : (diary e.caller after).filterMap (Doing.notice? n) = [] := by
      rw [List.filterMap_eq_nil_iff]
      intro d mem
      have silent := List.filterMap_eq_nil_iff.mp none _ (mem_diary.mp mem)
      simpa using silent
    rw [told, List.replicate_eq_nil_iff] at unheard
    omega

theorem exists_change_of_notice {i : Nat} {id : Option Value} {r : Except Fault Unit}
    (announced : Doing.Announced n times (diary i history))
    (split : history = before ++ ⟨i, .tell n (.selectionChanged id), r⟩ :: after) :
    ∃ earlier e between, before = earlier ++ e :: between ∧ e.caller = i ∧
      Doing.change? ⟨e.action, e.reply⟩ = some id := by
  have notice : Doing.notice? n ⟨.tell n (.selectionChanged id), r⟩ = some id := if_pos rfl
  have mem : ⟨.tell n (.selectionChanged id), r⟩ ∈ diary i history :=
    mem_diary.mpr (split ▸ List.mem_append_right _ List.mem_cons_self)
  generalize whole : diary i history = ds at announced
  rw [whole] at mem
  cases announced with
  | quiet still silent => exact absurd mem (notMem_of_filterMap_eq_nil silent notice)
  | @change first rest d id' change mute _ silent _ told =>
    obtain ⟨a, answer⟩ := d
    obtain ⟨earlier, since, parted, rfl, rfl⟩ := exists_of_diary_eq whole
    obtain inFront | same | ⟨between, rfl, rfl⟩ := split_at_places (parted.symm.trans split)
    · exact absurd (mem_diary.mpr inFront) (notMem_of_filterMap_eq_nil silent notice)
    · cases same
      rw [notice] at mute
      cases mute
    · have among : id ∈ (diary i (between ++ ⟨i, .tell n (.selectionChanged id), r⟩ ::
          after)).filterMap (Doing.notice? n) :=
        List.mem_filterMap.mpr ⟨_, mem_diary.mpr (by simp), notice⟩
      rw [told] at among
      obtain rfl := List.eq_of_mem_replicate among
      exact ⟨earlier, _, between, rfl, rfl, change⟩

/-- When all is over, nothing has changed since a listener was told of a change last. -/
theorem Reachable.changesOf_eq_nil {w : World} {s : System Unit} (orderly : w.selection.Orderly)
    (reach : Reachable (SessionChange.IsRunOf SessionChange.Selects) w s)
    (announced : ∀ i, Doing.Announced n times (diary i s.history)) (heard : 0 < times)
    (split : s.history = before ++ after) (none : noticesOf n after = []) :
    changesOf (w.replay before) after = [] := by
  rw [reach.changesOf_eq orderly split, List.filterMap_eq_nil_iff]
  intro e mem
  rw [Option.map_eq_none_iff]
  by_contra changes
  obtain ⟨id, change⟩ := Option.ne_none_iff_exists'.mp changes
  obtain ⟨first, rest, rfl⟩ := List.mem_iff_append.mp mem
  rw [← List.append_assoc] at split
  refine notices_ne_nil_of_change (announced e.caller) heard split change ?_
  rw [noticesOf, List.filterMap_eq_nil_iff] at none ⊢
  exact fun e' mem' => none e' (List.mem_append_right _ (List.mem_cons_of_mem _ mem'))

end System

namespace Sessions

/-- When all selecting, removing and clearing of sessions is over, a listener who was there all the
time has missed no change, and what is selected is what was selected when the last notification
arrived. That one tells of a change that its caller had made. So it tells what is selected exactly
if no other change came in between, or the last that did was to the same id. -/
theorem last_notice_selected_iff {n : Nat} {w : World} {s : System Unit}
    (orderly : w.selection.Orderly) (listens : .outside n ∈ w.selectionListeners.subscribed)
    (alive : .outside n ∉ w.selectionListeners.abandoned)
    (reach : System.Reachable (SessionChange.IsRunOf SessionChange.Selects) w s)
    (returned : ∀ e ∈ s.history, e.hasReturned) (finished : ∀ p ∈ s.callers, p.hasEnded) :
    (noticesOf n s.history = [] → changesOf w s.history = []) ∧
    ∀ {before after i id r},
      s.history = before ++ ⟨i, .tell n (.selectionChanged id), r⟩ :: after →
      noticesOf n after = [] →
      sameId s.world.selection.selected (w.replay before).selection.selected ∧
      ∃ earlier change between, before = earlier ++ change :: between ∧
        changesOf (w.replay earlier) [change] = [(i, id)] ∧
        (sameId id s.world.selection.selected ↔
          ∀ other ∈ (changesOf (w.replay (earlier ++ [change])) between).getLast?,
            sameId id other.2) := by
  have has : w.selectionListeners.Has (.outside n) _ := ⟨rfl, alive⟩
  have heard := List.count_pos_iff.mpr listens
  have announced := reach.announced has returned finished
  refine ⟨reach.changesOf_eq_nil orderly announced heard (List.nil_append _).symm, ?_⟩
  intro before after i id r split none
  have parted := split.trans (List.append_cons ..)
  have still := reach.changesOf_eq_nil orderly announced heard parted none
  have atEnd : sameId s.world.selection.selected (w.replay before).selection.selected := by
    have last := sameId_last_change (w.replay (before ++ [⟨i, .tell n (.selectionChanged id), r⟩]))
      after
    rw [still, ← World.replay_append, ← parted, ← reach.world_eq, World.replay_concat] at last
    exact sameId_comm.mp last
  obtain ⟨earlier, e, between, rfl, rfl, change⟩ :=
    System.exists_change_of_notice (announced i) split
  have made : changesOf (w.replay earlier) [e] = [(e.caller, id)] := by
    rw [reach.changesOf_singleton orderly (split.trans (List.append_assoc ..)), change]
    rfl
  have selected : (w.replay (earlier ++ [e])).selection.selected = id := by
    rw [World.replay_concat, selected_of_change made]
  refine ⟨atEnd, earlier, e, between, rfl, made, ?_⟩
  have since := sameId_last_change (w.replay (earlier ++ [e])) between
  rw [← World.replay_append, selected, ← List.append_cons] at since
  rw [sameId_congr atEnd, ← sameId_congr since]
  cases (changesOf (w.replay (earlier ++ [e])) between).getLast? with
  | none => simp [Selection.sameId_rfl]
  | some other => simp

/-! A removal in between -/

def bothAwaited : World :=
  { awaited with
    selectionListeners :=
      (({} : Subscribers Listener).subscribe (.outside 0)).subscribe (.outside 1) }

theorem orderly_bothAwaited : bothAwaited.selection.Orderly := orderly_awaited

def removedWhileTold : System Unit :=
  System.scheduled listenersReturn bothAwaited
    [(SessionChange.select (.text "first")).run, (SessionChange.remove (.text "first")).run]
    [0, 0, 0, 1, 1, 1, 1, 1, 0, 0]

theorem reachable_removedWhileTold :
    System.Reachable (SessionChange.IsRunOf SessionChange.Selects) bothAwaited
      removedWhileTold := by
  refine System.reachable_scheduled _ _ ?_
  simp only [List.mem_cons, List.not_mem_nil, or_false]
  rintro p (rfl | rfl)
  · exact ⟨.select _, trivial, rfl⟩
  · exact ⟨.remove _, trivial, rfl⟩

theorem returned_removedWhileTold : ∀ e ∈ removedWhileTold.history, e.hasReturned := by
  decide +kernel

theorem finished_removedWhileTold : ∀ p ∈ removedWhileTold.callers, p.hasEnded := by
  decide +kernel

theorem last_notices_of_removal :
    let s := removedWhileTold
    sameId none s.world.selection.selected ∧
      (∃ earlier change between, s.history.take 5 = earlier ++ change :: between ∧
        changesOf (bothAwaited.replay earlier) [change] = [(1, none)]) ∧
      ∃ earlier change between, s.history.take 8 = earlier ++ change :: between ∧
        changesOf (bothAwaited.replay earlier) [change] = [(0, some (.text "first"))] ∧
        changesOf (bothAwaited.replay (earlier ++ [change])) between ≠ [] := by
  intro s
  have first : .outside 0 ∈ bothAwaited.selectionListeners.subscribed := by decide
  have second : .outside 1 ∈ bothAwaited.selectionListeners.subscribed := by decide
  obtain ⟨-, toldFirst⟩ := last_notice_selected_iff orderly_bothAwaited first (by decide)
    reachable_removedWhileTold returned_removedWhileTold finished_removedWhileTold
  obtain ⟨-, toldSecond⟩ := last_notice_selected_iff orderly_bothAwaited second (by decide)
    reachable_removedWhileTold returned_removedWhileTold finished_removedWhileTold
  have atFirst : s.history =
      s.history.take 5 ++ ⟨1, .tell 0 (.selectionChanged none), .ok ()⟩ :: s.history.drop 6 := rfl
  have atSecond : s.history = s.history.take 8 ++
      ⟨0, .tell 1 (.selectionChanged (some (.text "first"))), .ok ()⟩ :: s.history.drop 9 := rfl
  obtain ⟨-, earlier, change, between, split, made, -⟩ := toldFirst atFirst (by decide +kernel)
  obtain ⟨-, earlier', change', between', split', made', same'⟩ :=
    toldSecond atSecond (by decide +kernel)
  have selected : s.world.selection.selected = none := by decide +kernel
  rw [selected] at same'
  refine ⟨selected ▸ Selection.sameId_rfl, ⟨earlier, change, between, split, made⟩,
    earlier', change', between', split', made', fun still => ?_⟩
  rw [still] at same'
  exact absurd (same'.mpr nofun) (by decide)

/-- A listener that follows the notifications may know another session than the selected one. -/
theorem last_notice_not_selected :
    ¬ ∀ {n : Nat} {w : World} {s : System Unit}, w.selection.Orderly →
      .outside n ∈ w.selectionListeners.subscribed →
      .outside n ∉ w.selectionListeners.abandoned →
      System.Reachable (SessionChange.IsRunOf SessionChange.Selects) w s →
      (∀ e ∈ s.history, e.hasReturned) → (∀ p ∈ s.callers, p.hasEnded) →
      ∀ last ∈ (noticesOf n s.history).getLast?, sameId last.2 s.world.selection.selected := by
  intro claim
  have listens : .outside 1 ∈ bothAwaited.selectionListeners.subscribed := by decide
  have last : (0, some (.text "first")) ∈ (noticesOf 1 removedWhileTold.history).getLast? := by
    decide +kernel
  have same := claim orderly_bothAwaited listens (by decide) reachable_removedWhileTold
    returned_removedWhileTold finished_removedWhileTold _ last
  exact absurd same (by decide +kernel)

end Sessions

end ImageBrowser
