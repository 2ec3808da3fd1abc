import ImageBrowser.Proofs.Calls.Operations
import ImageBrowser.Proofs.Programs.Interleaving
import Mathlib.Data.Finset.Card

/-!
Any number of logical calls on one session, in any interleaving and with any answers of the stone.
The one number that a session counts in serves two purposes, claims and running calls. It balances
because every caller stands somewhere with the session, and the number is what the one caller
inside accounts for.
-/

namespace ImageBrowser

namespace Standing

def weight : Standing → Int
  | outside | refused | ended => 0
  | claiming => 1
  | calling => 2

theorem weight_pos {s : Standing} (holds : s.holds) : 0 < s.weight := by
  cases s <;> simp_all [Standing.holds, weight]

theorem weight_of_not_holds {s : Standing} (free : ¬ s.holds) : s.weight = 0 := by
  cases s <;> simp_all [Standing.holds, weight]

theorem weight_of_holds {s : Standing} (holds : s.holds) :
    s.weight = 1 + if s = calling then 1 else 0 := by
  cases s <;> simp_all [Standing.holds, weight]

/-- Nobody holds the session, or one caller does and the number is that caller's alone. -/
def Alone (standing : Nat → Standing) (depth : Int) : Prop :=
  ((∀ i, ¬ (standing i).holds) ∧ depth = 0) ∨
    ∃ i, (∀ j, (standing j).holds ↔ j = i) ∧ depth = (standing i).weight

theorem Alone.holder {standing : Nat → Standing} {depth : Int} {i : Nat}
    (alone : Alone standing depth) (holds : (standing i).holds) :
    (∀ j, (standing j).holds ↔ j = i) ∧ depth = (standing i).weight := by
  obtain ⟨nobody, _⟩ | ⟨holder, unique, count⟩ := alone
  · exact absurd holds (nobody i)
  · obtain rfl := (unique i).mp holds
    exact ⟨unique, count⟩

theorem Alone.update {standing : Nat → Standing} {depth depth' : Int} {i : Nat} {next : Standing}
    (alone : Alone standing depth)
    (balance : depth' - depth = next.weight - (standing i).weight)
    (free : ¬ (standing i).holds → next.holds → depth ≤ 0) :
    Alone (Function.update standing i next) depth' := by
  by_cases held : (standing i).holds
  · obtain ⟨nobody, _⟩ | ⟨holder, unique, count⟩ := alone
    · exact absurd held (nobody i)
    obtain rfl := (unique i).mp held
    by_cases holds : next.holds
    · refine .inr ⟨i, fun j => ?_, ?_⟩
      · rcases eq_or_ne j i with rfl | other
        · simpa using holds
        · simpa [Function.update_of_ne other] using unique j
      · rw [Function.update_self]
        omega
    · refine .inl ⟨fun j => ?_, ?_⟩
      · rcases eq_or_ne j i with rfl | other
        · simpa using holds
        · rw [Function.update_of_ne other, unique j]
          exact other
      · have := weight_of_not_holds holds
        omega
  · have none := weight_of_not_holds held
    by_cases holds : next.holds
    · have low := free held holds
      obtain ⟨nobody, count⟩ | ⟨holder, unique, count⟩ := alone
      · refine .inr ⟨i, fun j => ?_, ?_⟩
        · rcases eq_or_ne j i with rfl | other
          · simpa using holds
          · simpa [Function.update_of_ne other, other] using nobody j
        · rw [Function.update_self]
          omega
      · have := weight_pos ((unique holder).mpr rfl)
        omega
    · have same := weight_of_not_holds holds
      have elsewhere (j : Nat) :
          (Function.update standing i next j).holds ↔ (standing j).holds := by
        rcases eq_or_ne j i with rfl | other
        · simp [holds, held]
        · rw [Function.update_of_ne other]
      obtain ⟨nobody, count⟩ | ⟨holder, unique, count⟩ := alone
      · exact .inl ⟨fun j => (elsewhere j).not.mpr (nobody j), by omega⟩
      · have other : holder ≠ i := fun same => held ((unique i).mpr same.symm)
        refine .inr ⟨holder, fun j => (elsewhere j).trans (unique j), ?_⟩
        rw [Function.update_of_ne other]
        omega

end Standing

namespace World

theorem depth_setDepth (w : World) (n m : Nat) (d : Int) :
    (w.setDepth n d).depth m = if m = n then d else w.depth m := by
  simp only [depth, setDepth, Table.find?_insert]
  split <;> rfl

@[simp] theorem depth_setDepth_self (w : World) (n : Nat) (d : Int) :
    (w.setDepth n d).depth n = d := by
  rw [depth_setDepth, if_pos rfl]

theorem depth_setDepth_of_ne {w : World} {n m : Nat} (other : m ≠ n) (d : Int) :
    (w.setDepth m d).depth n = w.depth n := by
  rw [depth_setDepth, if_neg other.symm]

variable {w : World} {n : Nat}

theorem depth_setDepth_depth : (w.setDepth n (w.depth n)).depth = w.depth := by
  funext m
  rw [depth_setDepth]
  split
  · next same => rw [same]
  · rfl

theorem step_claim_of_busy (busy : 0 < w.depth n) :
    step (.claim n) w = (false, w.setDepth n (w.depth n)) := by
  simp only [step, Occupancy.claim, if_pos busy]

theorem not_granted_of_busy {granted : Bool} {v : World} (busy : 0 < w.depth n)
    (answers : Answers w (.step (.claim n)) granted v) : granted = false := by
  cases answers
  rw [step_claim_of_busy busy]

theorem step_claim_of_free (free : ¬ 0 < w.depth n) :
    step (.claim n) w = (true, w.setDepth n (w.depth n + 1)) := by
  simp only [step, Occupancy.claim, if_neg free]

end World

namespace Standing

variable {n : Nat} {t : Standing}

/-- What a caller may do to the session of a number from where it stands with it. Others may be
treated in any way. -/
def admits (n : Nat) (t : Standing) : Action → Prop
  | .step (.claim m) => m = n → ¬ t.holds
  | .step (.release m) | .step (.enter m) => m = n → t = claiming
  | .step (.leave m) => m = n → t = calling
  | _ => True

theorem after_of_ne {m : Nat} (other : m ≠ n) (t : Standing) :
    (∀ granted, t.after n (.step (.claim m)) granted = t) ∧
    (∀ r, t.after n (.step (.release m)) r = t) ∧ (∀ r, t.after n (.step (.enter m)) r = t) ∧
    (∀ r, t.after n (.step (.leave m)) r = t) :=
  ⟨fun _ => if_pos other, fun _ => if_pos other, fun _ => if_pos other, fun _ => if_pos other⟩

/-- What an action changes of the count is what it changes of its caller's part in it, and a caller
gets the session only while nothing is counted. -/
theorem balances {a : Action} {r : a.Reply} {w v : World} (admitted : t.admits n a)
    (answers : Answers w a r v) :
    v.depth n - w.depth n = (t.after n a r).weight - t.weight ∧
      (¬ t.holds → (t.after n a r).holds → w.depth n ≤ 0) := by
  have unmoved {v : World} {t' : Standing} (same : v.depth n = w.depth n) (stands : t' = t) :
      v.depth n - w.depth n = t'.weight - t.weight ∧
        (¬ t.holds → t'.holds → w.depth n ≤ 0) := by
    subst stands
    exact ⟨by omega, fun free holds => absurd holds free⟩
  cases answers with
  | step s =>
    cases s with
    | claim m =>
      rcases eq_or_ne m n with rfl | other
      · have weightless := weight_of_not_holds (admitted rfl)
        by_cases busy : 0 < w.depth m
        · rw [World.step_claim_of_busy busy]
          refine ⟨?_, fun _ holds => by simp [Standing.holds] at holds⟩
          simp only [World.depth_setDepth_self, after_claim, Bool.false_eq_true, if_false]
          rw [weightless]
          exact Int.sub_self _
        · rw [World.step_claim_of_free busy]
          refine ⟨?_, fun _ _ => Int.not_lt.mp busy⟩
          simp only [World.depth_setDepth_self, after_claim, if_true]
          rw [weightless, weight]
          omega
      · exact unmoved (World.depth_setDepth_of_ne other _) ((after_of_ne other t).1 _)
    | release m | enter m | leave m =>
      rcases eq_or_ne m n with rfl | other
      · obtain rfl := admitted rfl
        refine ⟨?_, fun free _ => absurd rfl free⟩
        simp only [World.step, World.depth_setDepth_self, Occupancy.enter, Occupancy.leave,
          after_release, after_enter, after_leave, weight]
        omega
      · obtain ⟨_, released, entered, left⟩ := after_of_ne other t
        exact unmoved (World.depth_setDepth_of_ne other _) (by simp only [released, entered, left])
    | _ => exact unmoved rfl rfl
  | _ => exact unmoved rfl rfl

end Standing

namespace Handle

variable {h : Handle}

def turns (h : Handle) : Discipline Standing where
  allows standing := h.lets (fun _ _ => True) ⟨standing, []⟩
  after := .after h.number

def standing (h : Handle) (history : List Event) (caller : Nat) : Standing :=
  System.observed (Standing.after h.number) .outside caller history

def holders (h : Handle) (history : List Event) : Finset Nat :=
  (history.map Event.caller).toFinset.filter fun i => (h.standing history i).holds

def inFlight (h : Handle) (history : List Event) : Finset Nat :=
  (history.map Event.caller).toFinset.filter fun i => h.standing history i = .calling

def IsCall (h : Handle) (p : Program Value) : Prop :=
  ∃ o values, o ≠ .compileSteps ∧ p = h.carryOut o values

theorem lets_turns {may : Scope} {p : Progress} {a : Action} (lets : h.lets may p a) :
    h.turns.allows p.standing a := by
  cases a with
  | step s => cases s <;> exact lets
  | ask c r => exact ⟨lets.1, lets.2.1, trivial⟩
  | login _ | wait _ | tell _ _ | report _ | log _ => exact lets

theorem calls_obey {p : Program Value} (call : h.IsCall p) : p.Obeys h.turns .outside Ends := by
  obtain ⟨o, values, whole, rfl⟩ := call
  have anything (source : Value) : Scope.Fetches (fun _ _ => True) source :=
    ⟨fun _ => trivial, fun _ => trivial, fun _ => trivial⟩
  have inScope : o.InScope fun _ _ => True := by
    cases o with
    | query _ => exact fun _ => anything _
    | runQuery => exact anything
    | _ => simp [Operation.InScope, Scope.Compiles]
  have logical : h.Logical (fun _ _ => True) (h.carryOut o values) :=
    logical_carryOut whole inScope
  refine ((logical {} rfl).coarsen (fun s t => s.standing = t) ?_ ?_ rfl).mono ?_
  · rintro s _ a rfl allowed
    have lets : h.lets (fun _ _ => True) s a := allowed
    exact lets_turns lets
  · rintro s _ a r rfl _
    rfl
  · rintro o _ ⟨s, rfl, ends⟩
    exact ends

theorem admits_of_turns {t : Standing} {a : Action} (allowed : h.turns.allows t a) :
    t.admits h.number a := by
  cases a with
  | step s =>
    cases s with
    | claim n =>
      obtain ⟨rfl, rfl⟩ := allowed
      exact fun _ => by decide
    | release n | enter n | leave n =>
      obtain ⟨rfl, rfl⟩ := allowed
      exact fun _ => rfl
    | _ => trivial
  | _ => trivial

theorem standing_concat (history : List Event) (e : Event) :
    h.standing (history ++ [e]) = Function.update (h.standing history) e.caller
      ((h.standing history e.caller).after h.number e.action e.reply) :=
  System.observed_concat_eq_update _ _ history e

theorem caller_obeys {w : World} {s : System Value} (reach : System.Reachable h.IsCall w s)
    {i : Nat} {p : Program Value} (caller : s.callers[i]? = some p) :
    p.Obeys h.turns (h.standing s.history i) Ends := reach.obeys (fun _ => calls_obey) caller

theorem alone_of_admits {α : Type} {starts : Program α → Prop} {w : World} {s : System α}
    (idle : w.depth h.number = 0) (reach : System.Reachable starts w s)
    (admits : ∀ {s : System α} {i a k}, System.Reachable starts w s →
      s.callers[i]? = some (.act a k) → (h.standing s.history i).admits h.number a) :
    Standing.Alone (h.standing s.history) (s.world.depth h.number) := by
  induction reach with
  | init => exact .inl ⟨fun _ => by simp [standing, System.observed, Standing.holds], idle⟩
  | start _ _ ih => exact ih
  | act reach caller answers ih =>
    obtain ⟨balance, free⟩ := Standing.balances (admits reach caller) answers
    rw [standing_concat]
    exact ih.update balance free

theorem alone_of_reachable {w : World} {s : System Value} (idle : w.depth h.number = 0)
    (reach : System.Reachable h.IsCall w s) :
    Standing.Alone (h.standing s.history) (s.world.depth h.number) :=
  alone_of_admits idle reach fun reach caller => admits_of_turns (caller_obeys reach caller).1

theorem mem_holders {history : List Event} {i : Nat} :
    i ∈ h.holders history ↔ (h.standing history i).holds := by
  simp only [holders, Finset.mem_filter, List.mem_toFinset, List.mem_map, and_iff_right_iff_imp]
  intro holds
  by_contra acted
  have absent : ∀ e ∈ history, e.caller ≠ i := by
    intro e mem same
    exact acted ⟨e, mem, same⟩
  rw [standing, System.observed_of_absent absent] at holds
  simp [Standing.holds] at holds

theorem inFlight_eq (history : List Event) :
    h.inFlight history = (h.holders history).filter fun i => h.standing history i = .calling := by
  ext i
  simp only [inFlight, holders, Finset.mem_filter, and_assoc, and_congr_right_iff, iff_and_self]
  intro _ calling
  rw [calling]
  rfl

theorem count_of_alone {history : List Event} {depth : Int}
    (alone : Standing.Alone (h.standing history) depth) :
    depth = (if (h.holders history).Nonempty then 1 else 0) + (h.inFlight history).card ∧
      (h.holders history).card ≤ 1 := by
  rw [inFlight_eq]
  obtain ⟨nobody, rfl⟩ | ⟨holder, unique, rfl⟩ := alone
  · have none : h.holders history = ∅ := by
      apply Finset.eq_empty_of_forall_notMem
      intro i mem
      exact nobody i (mem_holders.mp mem)
    simp [none]
  · have one : h.holders history = {holder} := by
      ext i
      rw [mem_holders, unique, Finset.mem_singleton]
    rw [one, Finset.filter_singleton, Standing.weight_of_holds ((unique holder).mpr rfl)]
    split <;> simp

theorem holders_of_holds {history : List Event} {depth : Int} {i : Nat}
    (alone : Standing.Alone (h.standing history) depth) (holds : (h.standing history i).holds) :
    h.holders history = {i} := by
  ext j
  rw [mem_holders, (alone.holder holds).1, Finset.mem_singleton]

/-- Whoever was turned down does nothing more to the session or the stone, and fails. -/
theorem raises_of_refused {p : Program Value} {t : Standing} (refused : t = .refused)
    (obeys : p.Obeys h.turns t Ends) : p.Raises (.refused .busy) := by
  induction p generalizing t with
  | done a => simp [Program.Obeys, Ends, refused] at obeys
  | fail f =>
    obtain rfl : f = .refused .busy := by simpa [Program.Obeys, Ends, refused] using obeys
    exact .now
  | act a k ih =>
    obtain ⟨allowed, next⟩ := obeys
    subst refused
    cases a with
    | log e => exact .log fun r => ih r rfl (next r)
    | step s => cases s <;> simp_all [turns, lets]
    | _ => simp_all [turns, lets]

variable {w : World} {s : System Value}

theorem not_holds_of_ended (reach : System.Reachable h.IsCall w s) {i : Nat}
    (ended : ∀ p ∈ s.callers, p.hasEnded) : ¬ (h.standing s.history i).holds := by
  cases caller : s.callers[i]? with
  | none =>
    have late : s.callers.length ≤ i := List.getElem?_eq_none_iff.mp caller
    have absent : ∀ e ∈ s.history, e.caller ≠ i := by
      intro e mem
      have early := reach.caller_lt e mem
      omega
    rw [standing, System.observed_of_absent absent]
    decide
  | some p =>
    have obeys := caller_obeys reach caller
    have finished := ended p (List.mem_of_getElem? caller)
    cases p with
    | act a k => simp [Program.hasEnded] at finished
    | done a | fail f =>
      rcases obeys with stands | stands | ⟨stands, _⟩ <;> rw [stands] <;> decide

theorem outside_before {t : Standing} {a : Action} {r : a.Reply} (allowed : h.turns.allows t a)
    (outside : t.after h.number a r = .outside) : t = .outside ∧ ¬ a.isRemote := by
  cases a with
  | step s =>
    cases s with
    | claim n =>
      obtain ⟨rfl, rfl⟩ := allowed
      cases r <;> simp at outside
    | release n | enter n | leave n =>
      obtain ⟨rfl, rfl⟩ := allowed
      simp at outside
    | _ => exact ⟨outside, by simp [Action.isRemote]⟩
  | ask c q =>
    obtain ⟨_, calling, _⟩ := allowed
    exact absurd (calling.symm.trans outside) (by decide)
  | login l => exact absurd allowed id
  | _ => exact ⟨outside, by simp [Action.isRemote]⟩

theorem not_remote_of_outside (reach : System.Reachable h.IsCall w s) {i : Nat}
    (outside : h.standing s.history i = .outside) :
    ∀ e ∈ s.history, e.caller = i → ¬ e.action.isRemote := by
  induction reach with
  | init => simp
  | start _ _ ih => exact ih outside
  | @act s j a k r v reach caller answers ih =>
    have allowed := (caller_obeys reach caller).1
    rw [standing_concat] at outside
    intro e mem same
    rcases eq_or_ne i j with rfl | other
    · rw [Function.update_self] at outside
      obtain ⟨before, silent⟩ := outside_before allowed outside
      rcases List.mem_append.mp mem with old | new
      · exact ih before e old same
      · rw [List.mem_singleton.mp new]
        exact silent
    · rw [Function.update_of_ne other] at outside
      rcases List.mem_append.mp mem with old | new
      · exact ih outside e old same
      · rw [List.mem_singleton.mp new] at same
        exact absurd same.symm other

/-- Every interleaving of logical calls on one session, whatever the stone answers: the number that
the session counts in is one for the holder and one for each call that is running; at most one
caller holds the session, and does so whenever it asks the stone; who comes while the number is not
zero has asked nothing, changes nothing and fails; and when all have ended the number is zero. -/
theorem exclusive_use (idle : w.depth h.number = 0) (reach : System.Reachable h.IsCall w s) :
    (s.world.depth h.number =
        (if (h.holders s.history).Nonempty then 1 else 0) + (h.inFlight s.history).card ∧
      (h.holders s.history).card ≤ 1) ∧
    (∀ {before e after}, s.history = before ++ e :: after →
      (e.action.isRemote → (∃ r, e.action = .ask h.connection r) ∧
        h.standing before e.caller = .calling ∧ h.holders before = {e.caller}) ∧
      (e.action = .step (.release h.number) → h.holders before = {e.caller})) ∧
    (∀ {i k}, s.callers[i]? = some (.act (.step (.claim h.number)) k) →
      0 < s.world.depth h.number →
      (∀ e ∈ s.history, e.caller = i → ¬ e.action.isRemote) ∧
      ∀ {r v}, Answers s.world (.step (.claim h.number)) r v →
        r = false ∧ v.depth = s.world.depth ∧ v = { s.world with depths := v.depths } ∧
          (k r).Raises (.refused .busy)) ∧
    ((∀ p ∈ s.callers, p.hasEnded) → s.world.depth h.number = 0) := by
  have alone := alone_of_reachable idle reach
  refine ⟨count_of_alone alone, ?_, ?_, ?_⟩
  · intro before e after split
    obtain ⟨s', k, reach', rfl, caller⟩ := reach.before_event split
    have allowed := (caller_obeys reach' caller).1
    have alone' := alone_of_reachable idle reach'
    obtain ⟨i, a, r⟩ := e
    constructor
    · intro remote
      cases a with
      | ask c q =>
        obtain ⟨rfl, calling, _⟩ := allowed
        have calling : h.standing s'.history i = .calling := calling
        have holds : (h.standing s'.history i).holds := by
          rw [calling]
          rfl
        exact ⟨⟨q, rfl⟩, calling, holders_of_holds alone' holds⟩
      | login l => exact absurd allowed id
      | _ => simp [Action.isRemote] at remote
    · intro released
      subst released
      have claiming : h.standing s'.history i = .claiming := allowed.2
      have holds : (h.standing s'.history i).holds := by
        rw [claiming]
        rfl
      exact holders_of_holds alone' holds
  · intro i k caller busy
    obtain ⟨⟨_, outside⟩, next⟩ := caller_obeys reach caller
    refine ⟨not_remote_of_outside reach outside, ?_⟩
    intro r v answers
    cases answers
    rw [World.step_claim_of_busy busy]
    have refused : h.turns.after (h.standing s.history i) (.step (.claim h.number)) false =
        .refused := by simp [turns]
    exact ⟨rfl, World.depth_setDepth_depth, rfl, raises_of_refused refused (next false)⟩
  · intro ended
    obtain ⟨_, zero⟩ | ⟨holder, unique, _⟩ := alone
    · exact zero
    · exact absurd ((unique holder).mpr rfl) (not_holds_of_ended reach ended)

theorem exclusive_use_of_two_calls : ∃ (h : Handle) (s : System Value) (k : Bool → Program Value),
    System.Reachable h.IsCall {} s ∧ s.world.depth h.number = 1 ∧ h.holders s.history = {0} ∧
      s.callers[1]? = some (.act (.step (.claim h.number)) k) ∧
      (k false).Raises (.refused .busy) := by
  let h : Handle := ⟨0, .text "generated-1", ⟨.text "gs64stone"⟩⟩
  have begins : h.IsCall (h.carryOut .begin []) := ⟨.begin, [], by decide, rfl⟩
  have commits : h.IsCall (h.carryOut .commit []) := ⟨.commit, [], by decide, rfl⟩
  have started := (System.Reachable.init (w := {})).start begins |>.start commits
  have logged := started.act (i := 0) rfl (.log _ _) |>.act (i := 1) rfl (.log _ _)
  have claimed := logged.act (i := 0) rfl (.step _ _)
  obtain ⟨_, _, refuses, _⟩ := exclusive_use (h := h) rfl claimed
  obtain ⟨_, refused⟩ := refuses (i := 1) rfl (by decide)
  obtain ⟨_, _, _, raises⟩ := refused (.step _ _)
  exact ⟨h, _, _, claimed, rfl, by decide, rfl, raises⟩

end Handle

end ImageBrowser
