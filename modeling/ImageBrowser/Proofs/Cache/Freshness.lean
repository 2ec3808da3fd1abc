import ImageBrowser.Proofs.Cache.Turns

/-!
No entry of the cache outlives a clearing: in every interleaving of requests and clearings, what is
stored, and what a request is answered, comes from a fetch for the same key that was registered
after any clearing before it. Old entries could come in by a fetch that was overtaken, by joining
one, or by one that ends while a newer one has its place; all three are ruled out because tickets
are never given out twice, and a clearing takes out all registrations.
-/

namespace ImageBrowser

def Owns (history : List Event) (i : Nat) (k : CacheKey) (ticket : Nat) : Prop :=
  ⟨i, .step (.request k), .owned ticket⟩ ∈ history

def Settles (history : List Event) (i : Nat) (k : CacheKey) (ticket : Nat)
    (outcome : Except Fault CacheEntry) : Prop :=
  ⟨i, .step (.settle k ticket outcome), ()⟩ ∈ history

/-- What happened since some clearing, the latest for instance, or all that happened. -/
def Since (rest history : List Event) : Prop :=
  rest = history ∨ ∃ before i, history = before ++ ⟨i, .step .clearCache, ()⟩ :: rest

/-- An entry was built by a fetch for a key that was registered in `rest`. -/
def Fetched (rest history : List Event) (k : CacheKey) (e : CacheEntry) : Prop :=
  ∃ i ticket, Owns rest i k ticket ∧ Settles history i k ticket (.ok e)

def Decided (history : List Event) (ticket : Nat) (outcome : Except Fault CacheEntry) : Prop :=
  ∃ i k, Owns history i k ticket ∧ Settles history i k ticket outcome

def Asks (history : List Event) (i : Nat) (k : CacheKey) : Prop :=
  ∃ found, ⟨i, .step (.request k), found⟩ ∈ history

section Histories

variable {history rest : List Event} {e : Event} {i ticket : Nat} {k : CacheKey}

theorem Owns.concat (owns : Owns history i k ticket) : Owns (history ++ [e]) i k ticket :=
  List.mem_append_left _ owns

theorem owns_concat : Owns (history ++ [e]) i k ticket ↔
    Owns history i k ticket ∨ e = ⟨i, .step (.request k), .owned ticket⟩ := by
  simp [Owns, eq_comm]

theorem Fetched.concat {x : CacheEntry} (fetched : Fetched rest history k x) :
    Fetched (rest ++ [e]) (history ++ [e]) k x := by
  obtain ⟨i, ticket, owns, settles⟩ := fetched
  exact ⟨i, ticket, owns.concat, List.mem_append_left _ settles⟩

theorem Decided.concat {outcome : Except Fault CacheEntry}
    (decided : Decided history ticket outcome) : Decided (history ++ [e]) ticket outcome := by
  obtain ⟨i, k, owns, settles⟩ := decided
  exact ⟨i, k, owns.concat, List.mem_append_left _ settles⟩

theorem Since.subset (since : Since rest history) : rest ⊆ history := by
  obtain rfl | ⟨before, i, rfl⟩ := since
  · exact List.Subset.refl _
  · exact fun x mem => List.mem_append_right _ (List.mem_cons_of_mem _ mem)

theorem since_concat (since : Since rest (history ++ [e])) :
    (∃ earlier, Since earlier history ∧ rest = earlier ++ [e]) ∨
      (rest = [] ∧ e.action = .step .clearCache) := by
  obtain rfl | ⟨before, i, split⟩ := since
  · exact .inl ⟨history, .inl rfl, rfl⟩
  · rcases System.history_append_singleton split with ⟨_, rfl, rfl⟩ | ⟨earlier, rfl, rfl⟩
    · exact .inr ⟨rfl, rfl⟩
    · exact .inl ⟨earlier, .inr ⟨before, i, rfl⟩, rfl⟩

theorem since_concat_of_uncleared (since : Since rest (history ++ [e]))
    (uncleared : e.action ≠ .step .clearCache) :
    ∃ earlier, Since earlier history ∧ rest = earlier ++ [e] :=
  (since_concat since).resolve_right fun cleared => uncleared cleared.2

theorem asks_concat : Asks (history ++ [e]) i k ↔
    Asks history i k ∨ ∃ found, e = ⟨i, .step (.request k), found⟩ := by
  simp [Asks, exists_or, eq_comm]

end Histories

def Owner (history : List Event) (i : Nat) (k : CacheKey) (ticket : Nat) : Prop :=
  Owns history i k ticket ∧
    ∀ {k' found}, ⟨i, .step (.request k'), found⟩ ∈ history → k' = k ∧ found = .owned ticket

theorem Owner.concat {history : List Event} {e : Event} {i ticket : Nat} {k : CacheKey}
    (owner : Owner history i k ticket)
    (other : ∀ {k' found}, e ≠ ⟨i, .step (.request k'), found⟩) :
    Owner (history ++ [e]) i k ticket := by
  refine ⟨owner.1.concat, ?_⟩
  intro k' found mem
  rcases List.mem_append.mp mem with old | new
  · exact owner.2 old
  · exact absurd (List.mem_singleton.mp new).symm other

namespace Stage

def Explained (history : List Event) (i : Nat) : Stage → Prop
  | idle => ∀ k, ¬ Asks history i k
  | fetching k ticket => Owner history i k ticket
  | settled k ticket outcome => Owner history i k ticket ∧ Settles history i k ticket outcome
  | waiting k ticket => (∀ {k'}, Asks history i k' → k' = k) ∧
      ∀ {rest}, Since rest history → Asks rest i k → ∃ j, Owns rest j k ticket
  | answered k outcome => (∀ {k'}, Asks history i k' → k' = k) ∧
      ∀ {rest e}, Since rest history → Asks rest i k → outcome = .ok e → Fetched rest history k e

variable {history : List Event} {e : Event} {i : Nat}

theorem Explained.concat {s : Stage} (explained : s.Explained history i)
    (other : ∀ {k found}, e ≠ ⟨i, .step (.request k), found⟩) :
    s.Explained (history ++ [e]) i := by
  have asked {h : List Event} {k : CacheKey} (asks : Asks (h ++ [e]) i k) : Asks h i k := by
    obtain asks | ⟨found, same⟩ := asks_concat.mp asks
    · exact asks
    · exact absurd same other
  cases s with
  | idle => exact fun k asks => explained k (asked asks)
  | fetching k ticket =>
    have owner : Owner history i k ticket := explained
    exact owner.concat other
  | settled k ticket outcome =>
    obtain ⟨owner, settles⟩ := explained
    exact ⟨owner.concat other, List.mem_append_left _ settles⟩
  | waiting k ticket =>
    refine ⟨fun asks => explained.1 (asked asks), ?_⟩
    intro rest since asks
    obtain ⟨earlier, already, rfl⟩ | ⟨rfl, _⟩ := since_concat since
    · obtain ⟨j, owns⟩ := explained.2 already (asked asks)
      exact ⟨j, owns.concat⟩
    · obtain ⟨_, none⟩ := asks
      contradiction
  | answered k outcome =>
    refine ⟨fun asks => explained.1 (asked asks), ?_⟩
    intro rest x since asks ok
    obtain ⟨earlier, already, rfl⟩ | ⟨rfl, _⟩ := since_concat since
    · exact (explained.2 already (asked asks) ok).concat
    · obtain ⟨_, none⟩ := asks
      contradiction

end Stage

/-- The invariant that ties the cache, its tickets and its callers to what happened. -/
structure Coherent (history : List Event) (c : Cache CacheKey CacheEntry) (stages : Nat → Stage) :
    Prop where
  bounded : ∀ {i k ticket}, Owns history i k ticket → ticket < c.nextTicket
  unique : ∀ {i j k k' ticket}, Owns history i k ticket → Owns history j k' ticket →
    i = j ∧ k = k'
  inFlight : ∀ {k f rest}, c.inFlight.find? k = some f → Since rest history →
    ∃ i, Owns rest i k f.ticket
  stored : ∀ {k x rest}, c.stored.find? k = some x → Since rest history → Fetched rest history k x
  outcomes : ∀ {ticket outcome}, c.outcomes.find? ticket = some outcome →
    Decided history ticket outcome
  explained : ∀ i, (stages i).Explained history i

namespace Coherent

variable {history : List Event} {c c' : Cache CacheKey CacheEntry} {stages : Nat → Stage}
  {e : Event} {next : Stage}

theorem explained_update (coherent : Coherent history c stages)
    (own : next.Explained (history ++ [e]) e.caller) (i : Nat) :
    (Function.update stages e.caller next i).Explained (history ++ [e]) i := by
  rcases eq_or_ne i e.caller with rfl | other
  · rwa [Function.update_self]
  · rw [Function.update_of_ne other]
    refine (coherent.explained i).concat fun {k found} same => other ?_
    rw [same]

theorem extend (coherent : Coherent history c stages)
    (unregistered : ∀ {i k ticket}, e ≠ ⟨i, .step (.request k), .owned ticket⟩)
    (uncleared : e.action ≠ .step .clearCache) (tickets : c'.nextTicket = c.nextTicket)
    (inFlight : ∀ {k f}, c'.inFlight.find? k = some f → c.inFlight.find? k = some f)
    (stored : ∀ {k x}, c'.stored.find? k = some x → c.stored.find? k = some x ∨
      ∀ {rest}, Since rest history → Fetched (rest ++ [e]) (history ++ [e]) k x)
    (outcomes : ∀ {ticket outcome}, c'.outcomes.find? ticket = some outcome →
      c.outcomes.find? ticket = some outcome ∨ Decided history ticket outcome)
    (own : next.Explained (history ++ [e]) e.caller) :
    Coherent (history ++ [e]) c' (Function.update stages e.caller next) := by
  have owned {i : Nat} {k : CacheKey} {ticket : Nat} (owns : Owns (history ++ [e]) i k ticket) :
      Owns history i k ticket := (owns_concat.mp owns).resolve_right unregistered
  refine ⟨?_, ?_, ?_, ?_, ?_, coherent.explained_update own⟩
  · intro i k ticket owns
    rw [tickets]
    exact coherent.bounded (owned owns)
  · intro i j k k' ticket owns owns'
    exact coherent.unique (owned owns) (owned owns')
  · intro k f rest registered since
    obtain ⟨rest, already, rfl⟩ := since_concat_of_uncleared since uncleared
    obtain ⟨i, owns⟩ := coherent.inFlight (inFlight registered) already
    exact ⟨i, owns.concat⟩
  · intro k x rest found since
    obtain ⟨rest, already, rfl⟩ := since_concat_of_uncleared since uncleared
    obtain old | new := stored found
    · exact (coherent.stored old already).concat
    · exact new already
  · intro ticket outcome published
    obtain old | decided := outcomes published
    · exact (coherent.outcomes old).concat
    · exact decided.concat

theorem cleared (coherent : Coherent history c stages)
    (clears : e.action = .step .clearCache) (own : next.Explained (history ++ [e]) e.caller) :
    Coherent (history ++ [e]) c.clear (Function.update stages e.caller next) := by
  have owned {i : Nat} {k : CacheKey} {ticket : Nat} (owns : Owns (history ++ [e]) i k ticket) :
      Owns history i k ticket := by
    obtain owns | same := owns_concat.mp owns
    · exact owns
    · rw [same] at clears
      cases clears
  refine ⟨?_, ?_, ?_, ?_, ?_, coherent.explained_update own⟩
  · intro i k ticket owns
    exact coherent.bounded (owned owns)
  · intro i j k k' ticket owns owns'
    exact coherent.unique (owned owns) (owned owns')
  · intro k f rest registered since
    contradiction
  · intro k x rest found since
    contradiction
  · intro ticket outcome published
    exact (coherent.outcomes published).concat

theorem registered {i : Nat} {k : CacheKey} (coherent : Coherent history c stages)
    (idle : stages i = .idle) :
    Coherent (history ++ [⟨i, .step (.request k), .owned c.nextTicket⟩]) (c.register k)
      (Function.update stages i (.fetching k c.nextTicket)) := by
  have none := coherent.explained i
  rw [idle] at none
  have owned {j : Nat} {k' : CacheKey} {ticket : Nat}
      (owns : Owns (history ++ [⟨i, .step (.request k), .owned c.nextTicket⟩]) j k' ticket) :
      (Owns history j k' ticket ∧ ticket < c.nextTicket) ∨
        (j = i ∧ k' = k ∧ ticket = c.nextTicket) := by
    obtain owns | same := owns_concat.mp owns
    · exact .inl ⟨owns, coherent.bounded owns⟩
    · cases same
      exact .inr ⟨rfl, rfl, rfl⟩
  have new : Owns (history ++ [⟨i, .step (.request k), .owned c.nextTicket⟩]) i k c.nextTicket :=
    owns_concat.mpr (.inr rfl)
  refine ⟨?_, ?_, ?_, ?_, ?_, coherent.explained_update ⟨new, ?_⟩⟩
  · intro j k' ticket owns
    show ticket < c.nextTicket + 1
    obtain ⟨_, low⟩ | ⟨_, _, same⟩ := owned owns
    · omega
    · omega
  · intro j j' k' k'' ticket owns owns'
    obtain ⟨old, low⟩ | ⟨rfl, rfl, rfl⟩ := owned owns
    · obtain ⟨old', _⟩ | ⟨_, _, rfl⟩ := owned owns'
      · exact coherent.unique old old'
      · omega
    · obtain ⟨_, low⟩ | ⟨rfl, rfl, _⟩ := owned owns'
      · omega
      · exact ⟨rfl, rfl⟩
  · intro k' f rest found since
    obtain ⟨rest, already, rfl⟩ := since_concat_of_uncleared since nofun
    rw [Cache.find?_inFlight_register] at found
    split at found
    · next same =>
      cases found
      exact ⟨i, owns_concat.mpr (.inr (by rw [same]))⟩
    · obtain ⟨j, owns⟩ := coherent.inFlight found already
      exact ⟨j, owns.concat⟩
  · intro k' x rest found since
    obtain ⟨rest, already, rfl⟩ := since_concat_of_uncleared since nofun
    exact (coherent.stored found already).concat
  · intro ticket outcome published
    exact (coherent.outcomes published).concat
  · intro k' found mem
    rcases List.mem_append.mp mem with old | new
    · exact absurd ⟨found, old⟩ (none k')
    · cases List.mem_singleton.mp new
      exact ⟨rfl, rfl⟩

theorem found {i : Nat} {k : CacheKey} {l : Lookup CacheEntry}
    (coherent : Coherent history c stages) (idle : stages i = .idle)
    (unowned : ∀ {ticket}, l ≠ .owned ticket)
    (fresh : ∀ {rest}, Since rest history → match l with
      | .found x => Fetched rest history k x
      | .joined ticket => ∃ j, Owns rest j k ticket
      | .owned _ => False) :
    Coherent (history ++ [⟨i, .step (.request k), l⟩]) c
      (Function.update stages i (.ofLookup k l)) := by
  have none := coherent.explained i
  rw [idle] at none
  have only {k' : CacheKey} (asks : Asks (history ++ [⟨i, .step (.request k), l⟩]) i k') :
      k' = k := by
    obtain old | ⟨_, same⟩ := asks_concat.mp asks
    · exact absurd old (none k')
    · cases same
      rfl
  refine coherent.extend (fun same => ?_) (fun clears => by cases clears) rfl id .inl .inl ?_
  · cases same
    exact unowned rfl
  cases l with
  | found x =>
    refine ⟨only, ?_⟩
    intro rest y since _ same
    obtain ⟨rest, already, rfl⟩ := since_concat_of_uncleared since nofun
    cases same
    exact (fresh already).concat
  | joined ticket =>
    refine ⟨only, ?_⟩
    intro rest since _
    obtain ⟨rest, already, rfl⟩ := since_concat_of_uncleared since nofun
    obtain ⟨j, owns⟩ := fresh already
    exact ⟨j, owns.concat⟩
  | owned ticket => exact absurd rfl unowned

theorem settled {i : Nat} {k : CacheKey} {ticket : Nat} {outcome : Except Fault CacheEntry}
    (coherent : Coherent history c stages) (fetching : stages i = .fetching k ticket) :
    Coherent (history ++ [⟨i, .step (.settle k ticket outcome), ()⟩]) (c.settle k ticket outcome)
      (Function.update stages i (.settled k ticket outcome)) := by
  have explained := coherent.explained i
  rw [fetching] at explained
  have owner : Owner history i k ticket := explained
  have settles : Settles (history ++ [⟨i, .step (.settle k ticket outcome), ()⟩]) i k ticket
      outcome := List.mem_append_right _ (List.mem_singleton.mpr rfl)
  refine coherent.extend nofun nofun Cache.nextTicket_settle Cache.find?_inFlight_settle ?_ ?_
    ⟨owner.concat nofun, settles⟩
  · intro k' x stored
    obtain old | ⟨rfl, rfl, f, registered, rfl⟩ := Cache.find?_stored_settle stored
    · exact .inl old
    · right
      intro rest since
      -- the registration is the owner's own, as no ticket is given out twice
      obtain ⟨j, owns⟩ := coherent.inFlight registered since
      obtain ⟨rfl, _⟩ := coherent.unique owner.1 (since.subset owns)
      exact ⟨i, f.ticket, owns.concat, settles⟩
  · intro t o published
    rw [Cache.outcomes_settle] at published
    exact .inl published

theorem published {i : Nat} {k : CacheKey} {ticket : Nat} {outcome : Except Fault CacheEntry}
    (coherent : Coherent history c stages) (settled : stages i = .settled k ticket outcome) :
    Coherent (history ++ [⟨i, .step (.publish ticket outcome), ()⟩]) (c.publish ticket outcome)
      (Function.update stages i (.answered k outcome)) := by
  have explained := coherent.explained i
  rw [settled] at explained
  obtain ⟨owner, settles⟩ := explained
  have answered : (Stage.answered k outcome).Explained history i := by
    refine ⟨fun ⟨_, mem⟩ => (owner.2 mem).1, ?_⟩
    intro rest x since ⟨found, mem⟩ same
    obtain ⟨_, rfl⟩ := owner.2 (since.subset mem)
    exact ⟨i, ticket, mem, by rwa [← same]⟩
  refine coherent.extend nofun nofun rfl id .inl ?_ (answered.concat nofun)
  intro t o found
  rw [Cache.find?_outcomes_publish] at found
  split at found
  · next same =>
    cases found
    exact .inr ⟨i, k, by rw [same]; exact owner.1, by rw [same]; exact settles⟩
  · exact .inl found

theorem waited {i : Nat} {k : CacheKey} {ticket : Nat} {outcome : Except Fault CacheEntry}
    (coherent : Coherent history c stages) (waiting : stages i = .waiting k ticket)
    (published : c.outcomes.find? ticket = some outcome) :
    Coherent (history ++ [⟨i, .wait ticket, outcome⟩]) c
      (Function.update stages i (.answered k outcome)) := by
  have explained := coherent.explained i
  rw [waiting] at explained
  obtain ⟨only, joined⟩ := explained
  have answered : (Stage.answered k outcome).Explained history i := by
    refine ⟨only, ?_⟩
    intro rest x since asks same
    obtain ⟨j, owns⟩ := joined since asks
    obtain ⟨j', k', owns', settles⟩ := coherent.outcomes published
    obtain ⟨rfl, rfl⟩ := coherent.unique (since.subset owns) owns'
    exact ⟨j, ticket, owns, by rwa [← same]⟩
  exact coherent.extend nofun nofun rfl id .inl .inl (answered.concat nofun)

theorem step {i : Nat} {a : Action} {r : a.Reply} (coherent : Coherent history c stages)
    (turn : Turn c (stages i) a r c' next) :
    Coherent (history ++ [⟨i, a, r⟩]) c' (Function.update stages i next) := by
  generalize before : stages i = stage at turn
  have explained := coherent.explained i
  rw [before] at explained
  cases turn with
  | found stored => exact coherent.found before nofun fun since => coherent.stored stored since
  | joined inFlight =>
    exact coherent.found before nofun fun since => coherent.inFlight inFlight since
  | owned => exact coherent.registered before
  | settled => exact coherent.settled before
  | published => exact coherent.published before
  | waited published => exact coherent.waited before published
  | cleared => exact coherent.cleared rfl (explained.concat nofun)
  | other apart uncleared =>
    have same : ∀ {k found}, (⟨i, a, r⟩ : Event) ≠ ⟨i, .step (.request k), found⟩ := by
      intro k found same
      cases same
      exact apart rfl
    exact coherent.extend (fun {j k ticket} owned => by cases owned; exact apart rfl) uncleared rfl
      id .inl .inl (explained.concat same)

end Coherent

def stages (history : List Event) (caller : Nat) : Stage :=
  System.observed Stage.after .idle caller history

theorem stages_concat (history : List Event) (e : Event) :
    stages (history ++ [e]) = Function.update (stages history) e.caller
      ((stages history e.caller).after e.action e.reply) :=
  System.observed_concat_eq_update _ _ history e

/-- The invariant holds wherever every caller takes the steps of its request in order. -/
theorem coherent_of_inOrder {α : Type} {starts : Program α → Prop}
    {post : Except Fault α → Stage → Prop}
    (ordered : ∀ p, starts p → p.Obeys Stage.inOrder .idle post) {w : World} {s : System α}
    (empty : w.cache = {}) (reach : System.Reachable starts w s) :
    Coherent s.history s.world.cache (stages s.history) := by
  induction reach with
  | init =>
    show Coherent [] w.cache fun _ => .idle
    rw [empty]
    exact ⟨nofun, nofun, nofun, nofun, nofun, fun _ _ => nofun⟩
  | start _ _ ih => exact ih
  | act reach caller answers ih =>
    have allowed := (reach.obeys ordered caller).1
    rw [stages_concat]
    exact ih.step (turn_of_answers allowed answers)

theorem coherent_of_reachable {w : World} {s : System (Option CacheEntry)} (empty : w.cache = {})
    (reach : System.Reachable CacheCall w s) :
    Coherent s.history s.world.cache (stages s.history) :=
  coherent_of_inOrder (fun _ call => call.inOrder) empty reach

/-- In every interleaving of requests and clearings, after any of the clearings: what is stored was
built by a fetch for its key that was registered after it; and whoever asked after it and has an
entry, was answered with one built by such a fetch. -/
theorem entries_fetched_since_clearing {w : World} {s : System (Option CacheEntry)}
    {rest : List Event} (empty : w.cache = {}) (reach : System.Reachable CacheCall w s)
    (since : Since rest s.history) :
    (∀ {k e}, s.world.cache.stored.find? k = some e → Fetched rest s.history k e) ∧
    ∀ {i k e}, Asks rest i k → s.callers[i]? = some (.done (some e)) →
      Fetched rest s.history k e := by
  have coherent := coherent_of_reachable empty reach
  refine ⟨fun stored => coherent.stored stored since, ?_⟩
  intro i k e asks ended
  obtain ⟨k', answered⟩ := reach.obeys (fun _ call => call.inOrder) ended e rfl
  have answered : stages s.history i = .answered k' (.ok e) := answered
  have explained := coherent.explained i
  rw [answered] at explained
  obtain ⟨found, mem⟩ := asks
  obtain rfl := explained.1 ⟨found, since.subset mem⟩
  exact explained.2 since ⟨found, mem⟩ rfl

theorem entries_fetched_since_overtaking : ∃ (s : System (Option CacheEntry)) (rest : List Event)
    (k : CacheKey) (e : CacheEntry),
    System.Reachable CacheCall {} s ∧ Since rest s.history ∧ rest.length = 3 ∧
      s.world.cache.stored.find? k = some e ∧ Fetched rest s.history k e := by
  let k : CacheKey := .classCategories (.text "generated-1") (.whole 1)
  have early : CacheCall (some <$> Tree.entry k (.done (.environments ⟨.empty⟩))) :=
    .request k trivial
  have clears : CacheCall (do Tree.clearCache; return none) := .other Tree.clearCache_requestsNothing
  have late : CacheCall (some <$> Tree.entry k (.done (.classCategories ⟨[], []⟩))) :=
    .request k trivial
  have started := (System.Reachable.init (w := {})).start early |>.start clears |>.start late
  have overtaken := started.act (i := 0) rfl (.step _ _) |>.act (i := 1) rfl (.step _ _)
  have settled := overtaken.act (i := 2) rfl (.step _ _) |>.act (i := 0) rfl (.step _ _)
    |>.act (i := 2) rfl (.step _ _)
  obtain ⟨stored, _⟩ := entries_fetched_since_clearing rfl settled (.inr ⟨[_], 1, rfl⟩)
  exact ⟨_, _, k, _, settled, .inr ⟨[_], 1, rfl⟩, rfl, rfl, stored rfl⟩

end ImageBrowser
