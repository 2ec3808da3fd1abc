import ImageBrowser.Proofs.Cache.Requests
import ImageBrowser.Proofs.Sessions.Aside

/-!
How one caller may go about all the sessions, followed action by action: it asks a stone only in a
logical call on a session that it was told of, over a connection of its own that is not yet listed,
or to log out a session that it has removed. It makes one logical call at most, and when that is
refused it asks nothing more.
-/

namespace ImageBrowser

open Program (Keeps)

variable {α β : Type}

/-- Where a caller stands with the session of a number, by what it did. -/
def standingAfter (n : Nat) (done : List Doing) : Standing :=
  done.foldl (fun s d => s.after n d.1 d.2) .outside

def Handle.Told (h : Handle) (done : List Doing) : Prop :=
  ⟨.step .selectedSession, some h⟩ ∈ done ∨ ∃ id, ⟨.step (.sessionOf id), some h⟩ ∈ done

def Handle.Removed (h : Handle) (done : List Doing) : Prop :=
  ∃ id changed, ⟨.step (.removeSession id), some (h, changed)⟩ ∈ done

def Connection.LoggedIn (c : Connection) (done : List Doing) : Prop := ∃ l, ⟨.login l, .ok c⟩ ∈ done

def Connection.Listed (c : Connection) (done : List Doing) : Prop :=
  ∃ id metadata, ⟨.step (.openSession c id metadata), ()⟩ ∈ done

/-- The connection is the caller's own: nobody else has been told of it. -/
def Connection.Owned (c : Connection) (done : List Doing) : Prop :=
  c.LoggedIn done ∧ ¬ c.Listed done

def Unclaimed (done : List Doing) : Prop := ∀ n, standingAfter n done = .outside

def TurnedDown (done : List Doing) : Prop := ∃ n, standingAfter n done = .refused

/-- What a tool may do, given what it did before; whether it may remove a session is a parameter. -/
def dealing (removes : Prop) : Discipline (List Doing) := .diary fun done a =>
  match a with
  | .step (.claim n) => Unclaimed done ∧ ∃ h : Handle, h.Told done ∧ h.number = n
  | .step (.release n) | .step (.enter n) => standingAfter n done = .claiming
  | .step (.leave n) => standingAfter n done = .calling
  | .step (.openSession c _ _) => c.Owned done
  | .step (.adopt _ _) => False
  | .step (.removeSession _) => removes
  | .ask c r => ¬ TurnedDown done ∧
      (c.Owned done ∨
        (∃ h : Handle, h.Told done ∧ h.connection = c ∧ standingAfter h.number done = .calling) ∨
        (r = .logOut ∧ removes ∧ ∃ h : Handle, h.Removed done ∧ h.connection = c))
  | .login _ => ¬ TurnedDown done
  | _ => True

section Diaries

variable {done : List Doing} {a : Action} {r : a.Reply} {n : Nat} {h : Handle} {c : Connection}

theorem standingAfter_concat : standingAfter n (done ++ [⟨a, r⟩]) =
    (standingAfter n done).after n a r := by
  simp [standingAfter]

theorem Standing.after_of_spares (spares : a.sparesSessions) (s : Standing) :
    s.after n a r = s := by
  cases a with
  | step t => cases t <;> first | rfl | cases spares
  | _ => rfl

theorem standingAfter_of_spares (spares : a.sparesSessions) :
    standingAfter n (done ++ [⟨a, r⟩]) = standingAfter n done := by
  rw [standingAfter_concat, Standing.after_of_spares spares]

theorem Unclaimed.nil : Unclaimed [] := fun _ => rfl

theorem Unclaimed.not_turnedDown (unclaimed : Unclaimed done) : ¬ TurnedDown done := by
  rintro ⟨n, refused⟩
  rw [unclaimed n] at refused
  cases refused

def Steady (inv : List Doing → Prop) : Prop :=
  ∀ (done : List Doing) (a : Action) (r : a.Reply), a.sparesSessions → inv done →
    inv (done ++ [⟨a, r⟩])

theorem steady_true : Steady fun _ => True := fun _ _ _ _ _ => trivial

theorem Steady.and {inv inv' : List Doing → Prop} (first : Steady inv) (second : Steady inv') :
    Steady fun done => inv done ∧ inv' done :=
  fun done a r spares holds => ⟨first done a r spares holds.1, second done a r spares holds.2⟩

theorem Handle.Told.concat (told : h.Told done) : h.Told (done ++ [⟨a, r⟩]) := by
  obtain mem | ⟨id, mem⟩ := told
  · exact .inl (List.mem_append_left _ mem)
  · exact .inr ⟨id, List.mem_append_left _ mem⟩

theorem Handle.Removed.concat (removed : h.Removed done) : h.Removed (done ++ [⟨a, r⟩]) := by
  obtain ⟨id, changed, mem⟩ := removed
  exact ⟨id, changed, List.mem_append_left _ mem⟩

theorem Connection.LoggedIn.concat (loggedIn : c.LoggedIn done) :
    c.LoggedIn (done ++ [⟨a, r⟩]) := by
  obtain ⟨l, mem⟩ := loggedIn
  exact ⟨l, List.mem_append_left _ mem⟩

theorem Connection.Listed.concat (listed : c.Listed done) : c.Listed (done ++ [⟨a, r⟩]) := by
  obtain ⟨id, metadata, mem⟩ := listed
  exact ⟨id, metadata, List.mem_append_left _ mem⟩

theorem listed_concat_iff (other : ∀ id metadata, a ≠ .step (.openSession c id metadata)) :
    c.Listed (done ++ [⟨a, r⟩]) ↔ c.Listed done := by
  refine ⟨?_, Connection.Listed.concat⟩
  rintro ⟨id, metadata, mem⟩
  rcases List.mem_append.mp mem with old | new
  · exact ⟨id, metadata, old⟩
  · cases List.mem_singleton.mp new
    exact absurd rfl (other id metadata)

theorem Connection.Owned.concat (owns : c.Owned done)
    (other : ∀ id metadata, a ≠ .step (.openSession c id metadata)) : c.Owned (done ++ [⟨a, r⟩]) :=
  ⟨owns.1.concat, (listed_concat_iff other).not.mpr owns.2⟩

theorem steady_told : Steady h.Told := fun _ _ _ _ told => told.concat

theorem steady_removed : Steady h.Removed := fun _ _ _ _ removed => removed.concat

theorem steady_unclaimed : Steady Unclaimed :=
  fun _ _ _ spares unclaimed n => (standingAfter_of_spares spares).trans (unclaimed n)

theorem turnedDown_concat_iff (spares : a.sparesSessions) :
    TurnedDown (done ++ [⟨a, r⟩]) ↔ TurnedDown done :=
  exists_congr fun _ => by rw [standingAfter_of_spares spares]

theorem steady_not_turnedDown : Steady fun done => ¬ TurnedDown done :=
  fun _ _ _ spares => (turnedDown_concat_iff spares).not.mpr

end Diaries

variable {removes : Prop} {knows : List Doing → Prop} {h : Handle}

theorem allows_of_spares {a : Action} (spares : a.sparesSessions) (done : List Doing) :
    (dealing removes).allows done a := by
  cases a with
  | step t => cases t <;> trivial
  | ask _ _ | login _ => cases spares
  | _ => trivial

theorem Program.Spares.keepsDealing {p : Program α} {inv : List Doing → Prop} (spares : p.Spares)
    (steady : Steady inv) : p.Keeps (dealing removes) inv :=
  spares.keeps (fun spares _ => allows_of_spares spares _) fun r spares => steady _ _ r spares

structure InCall (h : Handle) (s : Progress) (done : List Doing) : Prop where
  told : h.Told done
  stands : standingAfter h.number done = s.standing
  others : ∀ n, n ≠ h.number → standingAfter n done = .outside

namespace InCall

variable {s : Progress} {done : List Doing} {may : Scope} {a : Action}

theorem refused (inCall : InCall h s done) (turnedDown : TurnedDown done) :
    s.standing = .refused := by
  obtain ⟨n, refused⟩ := turnedDown
  rcases eq_or_ne n h.number with rfl | other
  · exact inCall.stands.symm.trans refused
  · cases (inCall.others n other).symm.trans refused

theorem allows (inCall : InCall h s done) (lets : h.lets may s a) :
    (dealing removes).allows done a := by
  cases a with
  | step t =>
    cases t with
    | claim n =>
      obtain ⟨rfl, outside⟩ := lets
      refine ⟨fun n => ?_, h, inCall.told, rfl⟩
      rcases eq_or_ne n h.number with rfl | other
      · exact inCall.stands.trans outside
      · exact inCall.others n other
    | release n | enter n | leave n =>
      obtain ⟨rfl, stands⟩ := lets
      exact inCall.stands.trans stands
    | knownResultClass n | rememberResultClass n c => trivial
    | _ => exact absurd lets id
  | ask c q =>
    obtain ⟨rfl, calling, _⟩ := lets
    refine ⟨fun turnedDown => ?_, .inr (.inl ⟨h, inCall.told, rfl, inCall.stands.trans calling⟩)⟩
    cases calling.symm.trans (inCall.refused turnedDown)
  | log e => trivial
  | _ => exact absurd lets id

theorem after (inCall : InCall h s done) (r : a.Reply) (lets : h.lets may s a) :
    InCall h (s.after h.number a r) (done ++ [⟨a, r⟩]) := by
  refine ⟨inCall.told.concat, ?_, ?_⟩
  · rw [standingAfter_concat, inCall.stands]
    rfl
  · intro n other
    rw [standingAfter_concat, inCall.others n other]
    cases a with
    | step t =>
      cases t with
      | claim m | release m | enter m | leave m =>
        obtain ⟨rfl, _⟩ := lets
        exact if_pos other.symm
      | _ => rfl
    | _ => rfl

end InCall

/-- Begun by a caller that knows certain things and has claimed nothing, the program keeps to what
a tool may do, and if it is refused it fails with that. -/
def Deals (removes : Prop) (knows : List Doing → Prop) (p : Program α) : Prop :=
  ∀ done, knows done → Unclaimed done → p.Obeys (dealing removes) done fun outcome done =>
    TurnedDown done → outcome = .error (.refused .busy)

namespace Deals

theorem of_spares {p : Program α} (spares : p.Spares) : Deals removes knows p := by
  intro done _ unclaimed
  exact ((spares.keepsDealing steady_unclaimed) done unclaimed).mono
    fun _ _ unclaimed refused => absurd refused unclaimed.not_turnedDown

theorem of_logical {may : Scope} {p : Program α} (logical : h.Logical may p) :
    Deals removes h.Told p := by
  intro done told unclaimed
  have begun : InCall h {} done := ⟨told, unclaimed _, fun n _ => unclaimed n⟩
  refine ((logical {} rfl).coarsen (InCall h) (fun inCall lets => inCall.allows lets)
    (fun r inCall lets => inCall.after r lets) begun).mono ?_
  rintro outcome done ⟨s, inCall, ends⟩ turnedDown
  have refused := inCall.refused turnedDown
  obtain outside | ended | ⟨_, busy⟩ := ends
  · cases outside.symm.trans refused
  · cases ended.symm.trans refused
  · exact busy

theorem bind {p : Program α} {f : α → Program β} (first : Deals removes knows p)
    (next : ∀ a, (f a).Spares) : Deals removes knows (p >>= f) := by
  intro done knows unclaimed
  rw [Program.obeys_bind]
  refine (first done knows unclaimed).mono fun outcome done deals => ?_
  cases outcome with
  | error e =>
    intro refused
    cases deals refused
    rfl
  | ok a =>
    have free : ¬ TurnedDown done := fun refused => nomatch deals refused
    exact ((next a).keepsDealing steady_not_turnedDown done free).mono
      fun _ _ free refused => absurd refused free

theorem after {p : Program α} {f : α → Program β} (steady : Steady knows) (first : p.Spares)
    (next : ∀ a, Deals removes knows (f a)) : Deals removes knows (p >>= f) := by
  intro done knows unclaimed
  rw [Program.obeys_bind]
  refine (first.keepsDealing (steady.and steady_unclaimed) done ⟨knows, unclaimed⟩).mono ?_
  rintro outcome done ⟨knows, unclaimed⟩
  cases outcome with
  | error e => exact fun refused => absurd refused unclaimed.not_turnedDown
  | ok a => exact next a done knows unclaimed

theorem mono {knows' : List Doing → Prop} {p : Program α} (deals : Deals removes knows' p)
    (imp : ∀ done, knows done → knows' done) : Deals removes knows p :=
  fun done knows => deals done (imp done knows)

theorem act {a : Action} {k : a.Reply → Program α} (spares : a.sparesSessions)
    (next : ∀ r, Deals removes (fun done => ⟨a, r⟩ ∈ done) (k r)) :
    Deals removes (fun _ => True) (.act a k) := by
  intro done _ unclaimed
  refine ⟨allows_of_spares spares done, ?_⟩
  intro r
  exact next r _ (List.mem_append_right _ List.mem_cons_self)
    (steady_unclaimed _ _ _ spares unclaimed)

theorem selected {k : Option Handle → Program α} (nobody : (k none).Spares)
    (chosen : ∀ h, Deals removes h.Told (k (some h))) :
    Deals removes (fun _ => True) (.act (.step .selectedSession) k) := by
  apply act rfl
  intro found
  cases found with
  | none => exact of_spares nobody
  | some h => exact (chosen h).mono fun _ => .inl

theorem found {id : Value} {k : Option Handle → Program α} (nobody : (k none).Spares)
    (there : ∀ h, Deals removes h.Told (k (some h))) :
    Deals removes (fun _ => True) (.act (.step (.sessionOf id)) k) := by
  apply act rfl
  intro found
  cases found with
  | none => exact of_spares nobody
  | some h => exact (there h).mono fun _ mem => .inr ⟨id, mem⟩

end Deals

namespace Tree

theorem deals_entry {k : CacheKey} {fetch : Program CacheEntry} (steady : Steady knows)
    (fetches : Deals removes knows fetch) : Deals removes knows (entry k fetch) := by
  intro done known unclaimed
  refine ⟨trivial, ?_⟩
  intro found
  have known' : knows (done ++ [⟨.step (.request k), found⟩]) := steady _ _ _ rfl known
  have unclaimed' : Unclaimed (done ++ [⟨.step (.request k), found⟩]) :=
    steady_unclaimed _ _ _ rfl unclaimed
  cases found with
  | found e => exact fun refused => absurd refused unclaimed'.not_turnedDown
  | joined ticket =>
    have waits : (Program.wait ticket).Spares := Program.only_act rfl fun _ => .ofExcept _
    exact Deals.of_spares waits _ known' unclaimed'
  | owned ticket =>
    show (fetch.attempt >>= _).Obeys _ _ _
    rw [Program.obeys_bind, Program.obeys_attempt]
    refine (fetches _ known' unclaimed').mono fun outcome done deals => ?_
    refine ⟨trivial, fun _ => ⟨trivial, fun _ => ?_⟩⟩
    show (Program.ofExcept outcome).Obeys _ _ _
    rw [Program.obeys_ofExcept]
    intro refused
    have settled : TurnedDown (done ++ [⟨.step (.settle k ticket outcome), ()⟩]) :=
      (turnedDown_concat_iff rfl).mp refused
    exact deals ((turnedDown_concat_iff rfl).mp settled)

end Tree

end ImageBrowser
