import ImageBrowser.Cache.Basic

/-! What each operation of the cache can find and what it leaves behind. -/

namespace ImageBrowser.Cache

variable {κ ε : Type} [DecidableEq κ] {c : Cache κ ε} {k k' : κ} {ticket : Nat}
  {outcome : Except Fault ε}

def register (c : Cache κ ε) (k : κ) : Cache κ ε :=
  { c with
    inFlight := c.inFlight.insert k ⟨c.nextTicket, c.epoch⟩
    nextTicket := c.nextTicket + 1 }

theorem find?_inFlight_register : (c.register k).inFlight.find? k' =
    if k' = k then some ⟨c.nextTicket, c.epoch⟩ else c.inFlight.find? k' := by
  rw [register, Table.find?_insert]

theorem epoch_register : (c.register k).epoch = c.epoch := rfl

omit [DecidableEq κ] in
theorem find?_outcomes_publish {ticket' : Nat} : (c.publish ticket outcome).outcomes.find? ticket' =
    if ticket' = ticket then some outcome else c.outcomes.find? ticket' := by
  rw [publish, Table.find?_insert]

theorem request_cases (c : Cache κ ε) (k : κ) :
    (∃ e, c.stored.find? k = some e ∧ c.request k = (.found e, c)) ∨
    (∃ f, c.inFlight.find? k = some f ∧ c.request k = (.joined f.ticket, c)) ∨
    (c.stored.find? k = none ∧ c.inFlight.find? k = none ∧
      c.request k = (.owned c.nextTicket, c.register k)) := by
  unfold request
  split
  · next e stored => exact .inl ⟨e, stored, rfl⟩
  · next f _ inFlight => exact .inr (.inl ⟨f, inFlight, rfl⟩)
  · next stored inFlight => exact .inr (.inr ⟨stored, inFlight, rfl⟩)

theorem startedIn?_eq_some {epoch : Nat} (started : c.startedIn? k ticket = some epoch) :
    ∃ f, c.inFlight.find? k = some f ∧ f.ticket = ticket ∧ f.epoch = epoch := by
  obtain ⟨f, inFlight, same⟩ := Option.bind_eq_some_iff.mp started
  by_cases ours : f.ticket = ticket
  · rw [if_pos ours] at same
    exact ⟨f, inFlight, ours, Option.some.inj same⟩
  · rw [if_neg ours] at same
    contradiction

theorem find?_inFlight_forget {f : Flight}
    (inFlight : (c.forget k ticket).inFlight.find? k' = some f) :
    c.inFlight.find? k' = some f := by
  unfold forget at inFlight
  split at inFlight
  · rw [Table.find?_erase] at inFlight
    split at inFlight
    · contradiction
    · exact inFlight
  · exact inFlight

theorem ticket_ne_of_forget {f : Flight} (inFlight : (c.forget k ticket).inFlight.find? k = some f) :
    f.ticket ≠ ticket := by
  intro ours
  have before := find?_inFlight_forget inFlight
  have started : c.startedIn? k ticket = some f.epoch := by
    rw [startedIn?, before, Option.bind_some, if_pos ours]
  rw [forget, started, Option.isSome_some, if_pos rfl, Table.find?_erase, if_pos rfl] at inFlight
  contradiction

theorem find?_inFlight_forget_of_ne {f : Flight} (inFlight : c.inFlight.find? k' = some f)
    (other : ¬ (k' = k ∧ f.ticket = ticket)) :
    (c.forget k ticket).inFlight.find? k' = some f := by
  unfold forget
  split
  · next started =>
    obtain ⟨epoch, started⟩ := Option.isSome_iff_exists.mp started
    obtain ⟨g, registered, ours, _⟩ := startedIn?_eq_some started
    rw [Table.find?_erase]
    split
    · next same =>
      subst same
      rw [inFlight] at registered
      cases registered
      exact absurd ⟨rfl, ours⟩ other
    · exact inFlight
  · exact inFlight

theorem stored_forget : (c.forget k ticket).stored = c.stored := by
  unfold forget
  split <;> rfl

theorem nextTicket_forget : (c.forget k ticket).nextTicket = c.nextTicket := by
  unfold forget
  split <;> rfl

theorem outcomes_forget : (c.forget k ticket).outcomes = c.outcomes := by
  unfold forget
  split <;> rfl

theorem epoch_forget : (c.forget k ticket).epoch = c.epoch := by
  unfold forget
  split <;> rfl

theorem inFlight_settle :
    (c.settle k ticket outcome).inFlight = (c.forget k ticket).inFlight := by
  unfold settle
  cases outcome with
  | error _ => rfl
  | ok e =>
    dsimp only
    split <;> rfl

theorem find?_inFlight_settle {f : Flight}
    (inFlight : (c.settle k ticket outcome).inFlight.find? k' = some f) :
    c.inFlight.find? k' = some f := by
  rw [inFlight_settle] at inFlight
  exact find?_inFlight_forget inFlight

theorem ticket_ne_of_settle {f : Flight}
    (inFlight : (c.settle k ticket outcome).inFlight.find? k = some f) : f.ticket ≠ ticket := by
  rw [inFlight_settle] at inFlight
  exact ticket_ne_of_forget inFlight

theorem find?_inFlight_settle_of_ne {f : Flight} (inFlight : c.inFlight.find? k' = some f)
    (other : ¬ (k' = k ∧ f.ticket = ticket)) :
    (c.settle k ticket outcome).inFlight.find? k' = some f := by
  rw [inFlight_settle]
  exact find?_inFlight_forget_of_ne inFlight other

theorem find?_stored_settle {x : ε}
    (stored : (c.settle k ticket outcome).stored.find? k' = some x) :
    c.stored.find? k' = some x ∨
      (k' = k ∧ outcome = .ok x ∧ ∃ f, c.inFlight.find? k = some f ∧ f.ticket = ticket) := by
  unfold settle at stored
  cases outcome with
  | error _ =>
    rw [stored_forget] at stored
    exact .inl stored
  | ok e =>
    dsimp only at stored
    split at stored
    · next started =>
      rw [Table.find?_insert, stored_forget] at stored
      obtain ⟨f, inFlight, ours, _⟩ := startedIn?_eq_some started
      split at stored
      · next same => exact .inr ⟨same, by rw [Option.some.inj stored], f, inFlight, ours⟩
      · exact .inl stored
    · rw [stored_forget] at stored
      exact .inl stored

theorem isSome_stored_settle (stored : (c.stored.find? k').isSome) :
    ((c.settle k ticket outcome).stored.find? k').isSome := by
  unfold settle
  cases outcome with
  | error _ =>
    rw [stored_forget]
    exact stored
  | ok e =>
    dsimp only
    split
    · rw [Table.find?_insert, stored_forget]
      split
      · rfl
      · exact stored
    · rw [stored_forget]
      exact stored

theorem startedIn?_of_registered {epoch : Nat}
    (inFlight : c.inFlight.find? k = some ⟨ticket, epoch⟩) :
    c.startedIn? k ticket = some epoch := by
  rw [startedIn?, inFlight, Option.bind_some, if_pos rfl]

/-- A fetch of this epoch that is still registered stores what it built, and nothing else. -/
theorem find?_stored_settle_of_registered
    (inFlight : c.inFlight.find? k = some ⟨ticket, c.epoch⟩) :
    (c.settle k ticket outcome).stored.find? k' =
      match outcome with
      | .ok e => if k' = k then some e else c.stored.find? k'
      | .error _ => c.stored.find? k' := by
  cases outcome with
  | ok e =>
    rw [settle, if_pos (startedIn?_of_registered inFlight), Table.find?_insert, stored_forget]
  | error f => rw [settle, stored_forget]

theorem find?_stored_settle_self {e : ε} (inFlight : c.inFlight.find? k = some ⟨ticket, c.epoch⟩) :
    (c.settle k ticket (.ok e)).stored.find? k = some e := by
  rw [find?_stored_settle_of_registered inFlight]
  exact if_pos rfl

theorem find?_inFlight_settle_of_registered {epoch : Nat}
    (inFlight : c.inFlight.find? k = some ⟨ticket, epoch⟩) :
    (c.settle k ticket outcome).inFlight.find? k' =
      if k' = k then none else c.inFlight.find? k' := by
  rw [inFlight_settle, forget, startedIn?_of_registered inFlight, Option.isSome_some, if_pos rfl,
    Table.find?_erase]

theorem settle_register_of_failed (nobody : c.inFlight.find? k = none) (f : Fault) :
    (c.register k).settle k c.nextTicket (.error f) = { c with nextTicket := c.nextTicket + 1 } := by
  have registered : (c.register k).inFlight.find? k = some ⟨c.nextTicket, c.epoch⟩ := by
    rw [find?_inFlight_register, if_pos rfl]
  have absent : ¬ c.inFlight.contains k := by simp [Table.contains, nobody]
  rw [settle, forget, startedIn?_of_registered registered, Option.isSome_some, if_pos rfl]
  simp only [register, Table.erase_insert_of_absent absent]

theorem epoch_settle : (c.settle k ticket outcome).epoch = c.epoch := by
  unfold settle
  cases outcome with
  | error _ => exact epoch_forget
  | ok e =>
    dsimp only
    split
    · exact epoch_forget
    · exact epoch_forget

theorem nextTicket_settle : (c.settle k ticket outcome).nextTicket = c.nextTicket := by
  unfold settle
  cases outcome with
  | error _ => exact nextTicket_forget
  | ok e =>
    dsimp only
    split
    · exact nextTicket_forget
    · exact nextTicket_forget

theorem outcomes_settle : (c.settle k ticket outcome).outcomes = c.outcomes := by
  unfold settle
  cases outcome with
  | error _ => exact outcomes_forget
  | ok e =>
    dsimp only
    split
    · exact outcomes_forget
    · exact outcomes_forget

end ImageBrowser.Cache
