import ImageBrowser.Proofs.Cache.Operations
import ImageBrowser.Proofs.Cache.Readable
import ImageBrowser.Proofs.Calls.Failures
import ImageBrowser.Sessions

/-!
The shared state between the operations of one caller: sessions are listed under their own ids, what
is cached was read from a report, no fetch is under way, and only the tree follows the selection.
The operations on sessions keep it that way, and fail only for a session that is not there.
-/

namespace ImageBrowser

open Program (Meets)

/-- A state in which no fetch is under way but the one's own, if there is one. -/
structure World.Sound (own : Option (CacheKey × Nat)) (w : World) : Prop where
  enrolled : ∀ e ∈ w.selection.enrolled.entries, e.2.id.isKey ∧ e.1 = e.2.id.canonical
  stored : ∀ k e, w.cache.stored.find? k = some e → e.Readable
  inFlight : ∀ k f, w.cache.inFlight.find? k = some f → own = some (k, f.ticket)
  listeners : ∀ l ∈ w.selectionListeners.subscribed, l = .tree
  watchers : w.treeListeners.subscribed = []

variable {o : Outlook} {own : Option (CacheKey × Nat)} {fair : Prop} {α β : Type} {P : α → Prop}
  {bad : Fault → Prop} {w : World}

theorem World.Sound.congr {v : World} (sound : w.Sound own) (selection : v.selection = w.selection)
    (cache : v.cache = w.cache)
    (listeners : v.selectionListeners.subscribed = w.selectionListeners.subscribed)
    (watchers : v.treeListeners.subscribed = w.treeListeners.subscribed) : v.Sound own := by
  constructor
  · exact selection ▸ sound.enrolled
  · exact cache ▸ sound.stored
  · exact cache ▸ sound.inFlight
  · exact listeners ▸ sound.listeners
  · exact watchers ▸ sound.watchers

theorem World.Sound.ignoresCalls (own : Option (CacheKey × Nat)) :
    IgnoresCalls (World.Sound own) :=
  fun _ _ _ sound => sound.congr rfl rfl rfl rfl

theorem Program.ends_asKey_bind {id : Value} {f : Value → Program β}
    {post : Except Fault β → World → Prop} (keyed : fair → id.isKey)
    (unfair : ∀ e, ¬ fair → post (.error e) w) (next : id.isKey → (f id).Ends o w post) :
    (Program.ofExcept id.asKey >>= f).Ends o w post := by
  unfold Value.asKey
  split
  · next key => exact next key
  · next other => exact unfair _ fun isFair => other (keyed isFair)

/-! Listeners -/

theorem Subscribers.alive_subset {ℓ : Type} [DecidableEq ℓ] (s : Subscribers ℓ) :
    s.alive ⊆ s.subscribed := List.filter_subset_self _

theorem meets_tellAll {ℓ : Type} {inv : World → Prop} {tell : ℓ → Program Unit} {ls : List ℓ}
    (each : ∀ l ∈ ls, Meets o inv (tell l) (fun _ => True) bad) :
    Meets o inv (tellAll tell ls) (fun _ => True) bad := by
  induction ls with
  | nil => exact .done trivial
  | cons l ls ih =>
    exact .bind (each l List.mem_cons_self) fun _ _ =>
      ih fun l mem => each l (List.mem_cons_of_mem _ mem)

namespace Tree

theorem meets_clearCache :
    Meets o (World.Sound own) clearCache (fun _ => True) bad := by
  have cleared : Meets o (World.Sound own) (Program.step .clearCache) (fun _ => True) bad := by
    apply Meets.step
    intro w sound
    exact ⟨sound.enrolled, nofun, nofun, sound.listeners, sound.watchers⟩
  exact .bind cleared fun _ _ => .bind (.step fun _ sound => sound) fun _ _ => .log _

theorem meets_refresh : Meets o (World.Sound own) refresh (fun _ => True) bad := by
  have begun : Meets o (World.Sound own) (Program.step .beginTreeNotice) (· = []) bad := by
    apply Meets.step_with
    intro w sound
    have nobody : w.treeListeners.alive = [] := by simp [Subscribers.alive, sound.watchers]
    exact ⟨⟨sound.enrolled, sound.stored, sound.inFlight, sound.listeners, nobody⟩, nobody⟩
  have ended (called : List Nat) :
      Meets o (World.Sound own) (Program.step (.endTreeNotice called)) (fun _ => True) bad :=
    .step fun _ sound => sound.congr rfl rfl rfl rfl
  apply Meets.bind meets_clearCache
  intro _ _
  apply Meets.bind begun
  rintro _ rfl
  exact .ensure (.done trivial) (ended [])

end Tree

namespace Sessions

theorem meets_announce (id : Option Value) :
    Meets o (World.Sound own) (announce id) (fun _ => True) bad := by
  have begun : Meets o (World.Sound own) (Program.step .beginSelectionNotice)
      (fun called => ∀ l ∈ called, l = .tree) bad := by
    apply Meets.step_with
    intro w sound
    have known : ∀ l ∈ w.selectionListeners.alive, l = .tree :=
      fun l mem => sound.listeners l (w.selectionListeners.alive_subset mem)
    exact ⟨⟨sound.enrolled, sound.stored, sound.inFlight, known, sound.watchers⟩, known⟩
  have ended (called : List Listener) :
      Meets o (World.Sound own) (Program.step (.endSelectionNotice called)) (fun _ => True) bad :=
    .step fun _ sound => sound.congr rfl rfl rfl rfl
  apply Meets.bind begun
  intro called known
  refine .ensure (meets_tellAll ?_) (ended called)
  intro l mem
  rw [known l mem]
  exact Tree.meets_refresh

/-! Sessions -/

def Known (id : Value) (w : World) : Prop := id.isKey ∧ (w.selection.session? id).isSome

theorem sound_register {h : Handle} {metadata : Value} (sound : w.Sound own)
    (key : h.sessionId.isKey) :
    { w with selection := w.selection.register h metadata }.Sound own := by
  refine ⟨?_, sound.stored, sound.inFlight, sound.listeners, sound.watchers⟩
  intro e mem
  rcases Table.mem_entries_insert mem with rfl | old
  · dsimp only
    cases found : w.selection.find? h.sessionId with
    | none => exact ⟨key, rfl⟩
    | some first => exact sound.enrolled _ (Table.mem_entries_of_find? found)
  · exact sound.enrolled e old

theorem known_register {h : Handle} {metadata : Value} (key : h.sessionId.isKey) :
    Known h.sessionId { w with selection := w.selection.register h metadata } := by
  refine ⟨key, ?_⟩
  simp [Selection.session?, Selection.find?, Selection.register, Table.find?_insert]

theorem ends_add {c : Connection} {metadata id : Value} (sound : w.Sound own)
    (keyed : fair → id.isKey) :
    (add c metadata id).Ends o w fun outcome v =>
      v.Sound own ∧ Within (fun id => Known id v) (fun _ => ¬ fair) outcome := by
  have opened (id : Value) (key : id.isKey) {v : World} (sound : v.Sound own) :
      (do Program.step (.openSession c id metadata); return id).Ends o v fun outcome v =>
        v.Sound own ∧ Within (fun id => Known id v) (fun _ => ¬ fair) outcome := by
    rw [Program.ends_step_bind]
    have numbered : ({ v with nextHandle := v.nextHandle + 1 } : World).Sound own :=
      sound.congr rfl rfl rfl rfl
    exact ⟨sound_register (h := ⟨v.nextHandle, id, c⟩) numbered key,
      known_register (h := ⟨v.nextHandle, id, c⟩) key⟩
  unfold add
  dsimp only
  split
  · exact Program.ends_asKey_bind keyed (fun _ unfair => ⟨sound, unfair⟩) fun key =>
      opened id key sound
  · rw [Program.ends_step_bind]
    exact opened _ rfl (sound.congr rfl rfl rfl rfl)

theorem ends_contains_bind {id : Value} (key : id.isKey) {f : Bool → Program β}
    {post : Except Fault β → World → Prop} :
    (contains id >>= f).Ends o w post ↔ (f (w.selection.session? id).isSome).Ends o w post := by
  rw [contains, Value.asKey_of_isKey key]
  exact Program.ends_step_bind (.sessionOf id) (fun h => f h.isSome) w post

theorem meets_ifKnown {inv : World → Prop} {id : Value} {p q : Program α}
    (keyed : fair → id.isKey) (unfair : ∀ f, ¬ fair → bad f)
    (there : ∀ w, inv w → Known id w → p.Ends o w fun outcome v => inv v ∧ Within P bad outcome)
    (absent : Meets o inv q P bad) :
    Meets o inv (do if ← contains id then p else q) P bad := by
  intro w holds
  by_cases key : id.isKey
  · rw [ends_contains_bind key]
    split
    · next present => exact there w holds ⟨key, present⟩
    · exact absent w holds
  · rw [contains, Value.asKey, if_neg key]
    exact ⟨holds, unfair _ fun isFair => key (keyed isFair)⟩

theorem ends_orMissing {I : World → Prop} {id : Value} {found : Option α} (holds : I w)
    (there : fair → found.isSome) :
    (orMissing id found).Ends o w fun outcome v =>
      I v ∧ Within (fun a => found = some a) (fun _ => ¬ fair) outcome := by
  cases found with
  | some a => exact ⟨holds, rfl⟩
  | none => exact ⟨holds, fun isFair => Bool.false_ne_true (there isFair)⟩

theorem ends_get {I : World → Prop} {id : Value} (holds : I w) (known : fair → Known id w) :
    (get id).Ends o w fun outcome v =>
      I v ∧ Within (fun _ => True) (fun _ => ¬ fair) outcome := by
  apply Program.ends_asKey_bind (fun isFair => (known isFair).1) fun _ unfair => ⟨holds, unfair⟩
  intro _
  rw [Program.ends_step_bind]
  apply (ends_orMissing (I := I) holds fun isFair => (known isFair).2).mono
  exact fun _ _ ended => ⟨ended.1, ended.2.mono (fun _ _ => trivial) fun _ unfair => unfair⟩

theorem ends_metadata {I : World → Prop} {id : Value} (holds : I w)
    (known : fair → Known id w) :
    (metadata id).Ends o w fun outcome v =>
      I v ∧ Within (fun _ => True) (fun _ => ¬ fair) outcome := by
  apply Program.ends_asKey_bind (fun isFair => (known isFair).1) fun _ unfair => ⟨holds, unfair⟩
  intro _
  rw [Program.ends_step_bind]
  have present (isFair : fair) : (w.selection.metadata? id).isSome := by
    simpa [Selection.metadata?, Selection.session?] using (known isFair).2
  apply (ends_orMissing (I := I) holds present).mono
  exact fun _ _ ended => ⟨ended.1, ended.2.mono (fun _ _ => trivial) fun _ unfair => unfair⟩

theorem sound_select {selection : Selection} (sound : w.Sound own)
    (fewer : selection.enrolled.entries ⊆ w.selection.enrolled.entries) :
    { w with selection := selection }.Sound own :=
  ⟨fun e mem => sound.enrolled e (fewer mem), sound.stored, sound.inFlight, sound.listeners,
    sound.watchers⟩

theorem entries_remove_subset (s : Selection) (id : Value) :
    (s.remove id).2.enrolled.entries ⊆ s.enrolled.entries := by
  unfold Selection.remove
  split
  · exact List.Subset.refl _
  · exact List.filter_subset_self _

theorem isSome_remove (s : Selection) (id : Value) :
    (s.remove id).1.isSome = (s.session? id).isSome := by
  unfold Selection.remove
  split <;> simp [*]

theorem entries_select_subset (s : Selection) (id : Option Value) :
    (s.select id).2.enrolled.entries ⊆ s.enrolled.entries := by
  unfold Selection.select
  split <;> exact List.Subset.refl _

theorem isSome_select {s : Selection} {id : Value} (present : (s.session? id).isSome) :
    (s.select (optional id)).1.isSome := by
  have contained : s.contains id := by
    simpa [Selection.session?, Selection.find?, Selection.contains, Table.contains] using present
  unfold optional Selection.select
  split
  · rfl
  · simp [contained]

theorem ends_remove {id : Value} (sound : w.Sound own) (known : fair → Known id w) :
    (remove id).Ends o w fun outcome v =>
      v.Sound own ∧ Within (fun _ => True) (fun _ => ¬ fair) outcome := by
  apply Program.ends_asKey_bind (fun isFair => (known isFair).1) fun _ unfair => ⟨sound, unfair⟩
  intro _
  rw [Program.ends_step_bind]
  have kept : (w.step (.removeSession id)).2.Sound own :=
    sound_select sound (entries_remove_subset w.selection id)
  have removed (isFair : fair) : (w.step (.removeSession id)).1.isSome :=
    (isSome_remove w.selection id).trans (known isFair).2
  rw [Program.ends_bind]
  apply (ends_orMissing (I := World.Sound own) kept removed).mono
  rintro (f | ⟨h, wasSelected⟩) v ⟨sound, within⟩
  · exact ⟨sound, within⟩
  · have told : Meets o (World.Sound own) (announce none) (fun _ => True) fun _ => ¬ fair :=
      meets_announce none
    show (if wasSelected then announce none >>= fun _ => Program.done h
      else Program.done h).Ends _ _ _
    split
    · exact (told.bind fun _ _ => .done trivial) v sound
    · exact ⟨sound, trivial⟩

theorem ends_select {id : Value} (sound : w.Sound own) (known : fair → Known id w) :
    (select id).Ends o w fun outcome v =>
      v.Sound own ∧ Within (fun _ => True) (fun _ => ¬ fair) outcome := by
  apply Program.ends_asKey_bind (fun isFair => (known isFair).1) fun _ unfair => ⟨sound, unfair⟩
  intro _
  rw [Program.ends_step_bind]
  have kept : (w.step (.selectSession (optional id))).2.Sound own :=
    sound_select sound (entries_select_subset w.selection (optional id))
  have chosen (isFair : fair) : (w.step (.selectSession (optional id))).1.isSome :=
    isSome_select (known isFair).2
  rw [Program.ends_bind]
  apply (ends_orMissing (I := World.Sound own) kept chosen).mono
  rintro (f | changed) v ⟨sound, within⟩
  · exact ⟨sound, within⟩
  · show (if changed then announce (optional id) else Program.done ()).Ends _ _ _
    split
    · exact meets_announce _ v sound
    · exact ⟨sound, trivial⟩

theorem meets_clear : Meets o (World.Sound own) clear (fun _ => True) bad := by
  have cleared : Meets o (World.Sound own) (Program.step .clearSessions) (fun _ => True) bad :=
    .step fun w sound => sound_select sound (List.nil_subset _)
  apply Meets.bind cleared
  intro changed _
  split
  · exact meets_announce none
  · exact .done trivial

theorem ends_adopt {h : Handle} {metadata : Value} (sound : w.Sound own)
    (keyed : fair → h.sessionId.isKey) :
    (adopt h metadata).Ends o w fun outcome v =>
      v.Sound own ∧ Within (fun _ => True) (fun _ => ¬ fair) outcome := by
  apply Program.ends_asKey_bind keyed fun _ unfair => ⟨sound, unfair⟩
  intro key
  rw [Program.ends_step_bind]
  exact ⟨sound_register sound key, trivial⟩

theorem known_of_mem_ids {id : Value} (sound : w.Sound own) (mem : id ∈ w.selection.ids) :
    Known id w := by
  obtain ⟨enrolment, among, rfl⟩ := List.mem_map.mp mem
  obtain ⟨e, entry, rfl⟩ := List.mem_map.mp among
  obtain ⟨key, same⟩ := sound.enrolled e entry
  refine ⟨key, ?_⟩
  rw [Selection.session?, Option.isSome_map, Selection.find?, ← same]
  exact Table.isSome_find?_of_mem entry

end Sessions

inductive SessionChange
  | add (connection : Connection) (metadata id : Value)
  | adopt (h : Handle) (metadata : Value)
  | remove (id : Value)
  | select (id : Value)
  | clear

namespace SessionChange

def run : SessionChange → Program Unit
  | add c metadata id => do let _ ← Sessions.add c metadata id
  | adopt h metadata => do let _ ← Sessions.adopt h metadata
  | remove id => do let _ ← Sessions.remove id
  | select id => Sessions.select id
  | clear => Sessions.clear

theorem meets_run {o : Outlook} (c : SessionChange) :
    Meets o (World.Sound none) c.run (fun _ => True) fun _ => True := by
  have kept {α : Type} {p : Program α}
      (ends : ∀ w, w.Sound none → p.Ends o w fun _ v => v.Sound none) :
      Meets o (World.Sound none) p (fun _ => True) fun _ => True := by
    intro w sound
    apply (ends w sound).mono
    rintro (_ | _) v sound
    · exact ⟨sound, trivial⟩
    · exact ⟨sound, trivial⟩
  have discarded {α : Type} {p : Program α}
      (ends : ∀ w, w.Sound none → p.Ends o w fun _ v => v.Sound none) :
      Meets o (World.Sound none) (do let _ ← p) (fun _ => True) fun _ => True :=
    (kept ends).bind fun _ _ => .done trivial
  -- nothing is expected of what is given, so that every failure is a possible one
  cases c with
  | add c metadata id =>
    exact discarded fun _ sound =>
      (Sessions.ends_add sound False.elim).mono fun _ _ ended => ended.1
  | adopt h metadata =>
    exact discarded fun _ sound =>
      (Sessions.ends_adopt sound False.elim).mono fun _ _ ended => ended.1
  | remove id =>
    exact discarded fun _ sound =>
      (Sessions.ends_remove sound False.elim).mono fun _ _ ended => ended.1
  | select id =>
    exact kept fun _ sound =>
      (Sessions.ends_select sound False.elim).mono fun _ _ ended => ended.1
  | clear => exact Sessions.meets_clear

end SessionChange

end ImageBrowser
