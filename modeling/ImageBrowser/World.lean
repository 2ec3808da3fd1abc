import ImageBrowser.Cache.Entry
import ImageBrowser.Occupancy
import ImageBrowser.Selection
import ImageBrowser.Settings
import ImageBrowser.Subscribers

/-!
The state that all callers share, and the steps by which they change it. A step is atomic: however
the operations of several callers interleave, they do so between steps.
-/

namespace ImageBrowser

inductive Listener
  | tree
  | outside (number : Nat)
  deriving DecidableEq, Repr

structure World where
  depths : Table Nat Int := .empty
  resultClasses : Table Nat RemoteObject := .empty
  nextHandle : Nat := 0
  generatedIds : Nat := 0
  selection : Selection := {}
  selectionListeners : Subscribers Listener := {}
  treeListeners : Subscribers Nat := {}
  cache : Cache CacheKey CacheEntry := {}
  settings : Settings := {}
  notices : List String := []

inductive Step
  | claim (handle : Nat)
  | release (handle : Nat)
  | enter (handle : Nat)
  | leave (handle : Nat)
  | isBusy (handle : Nat)
  | knownResultClass (handle : Nat)
  | rememberResultClass (handle : Nat) (resultClass : RemoteObject)
  | freshId
  | openSession (connection : Connection) (id metadata : Value)
  | adopt (h : Handle) (metadata : Value)
  | sessionOf (id : Value)
  | metadataOf (id : Value)
  | sessionIds
  | selectedId
  | isSelected (id : Value)
  | selectedSession
  | removeSession (id : Value)
  | clearSessions
  | selectSession (id : Option Value)
  | beginSelectionNotice
  | endSelectionNotice (called : List Listener)
  | beginTreeNotice
  | endTreeNotice (called : List Nat)
  | clearCache
  | epoch
  | cached (k : CacheKey)
  | request (k : CacheKey)
  | settle (k : CacheKey) (ticket : Nat) (outcome : Except Fault CacheEntry)
  | publish (ticket : Nat) (outcome : Except Fault CacheEntry)
  | limit
  | clearNotices
  | addNotice (message : String)
  | notices

@[reducible] def Step.Reply : Step → Type
  | claim _ | isBusy _ | isSelected _ => Bool
  | knownResultClass _ => Option RemoteObject
  | freshId => Value
  | sessionOf _ | selectedSession => Option Handle
  | metadataOf _ | selectedId => Option Value
  | sessionIds => List Value
  | removeSession _ => Option (Handle × Bool)
  | clearSessions => Bool
  | selectSession _ => Option Bool
  | beginSelectionNotice => List Listener
  | beginTreeNotice => List Nat
  | epoch => Nat
  | cached _ => Option CacheEntry
  | request _ => Lookup CacheEntry
  | limit => Nat × Option LogEntry
  | notices => List String
  | _ => Unit

namespace World

def depth (w : World) (handle : Nat) : Int := (w.depths.find? handle).getD 0

def setDepth (w : World) (handle : Nat) (depth : Int) : World :=
  { w with depths := w.depths.insert handle depth }

def newHandle (w : World) (sessionId : Value) (connection : Connection) : Handle × World :=
  (⟨w.nextHandle, sessionId, connection⟩, { w with nextHandle := w.nextHandle + 1 })

def generatedId (n : Nat) : Value := .text ("generated-" ++ Text.ofInt n)

def step : (s : Step) → World → s.Reply × World
  | .claim h, w =>
    let (granted, depth) := Occupancy.claim (w.depth h)
    (granted, w.setDepth h depth)
  | .release h, w => ((), w.setDepth h (Occupancy.leave (w.depth h)))
  | .enter h, w => ((), w.setDepth h (Occupancy.enter (w.depth h)))
  | .leave h, w => ((), w.setDepth h (Occupancy.leave (w.depth h)))
  | .isBusy h, w => (Occupancy.isBusy (w.depth h), w)
  | .knownResultClass h, w => (w.resultClasses.find? h, w)
  | .rememberResultClass h c, w => ((), { w with resultClasses := w.resultClasses.insert h c })
  | .freshId, w =>
    (generatedId (w.generatedIds + 1), { w with generatedIds := w.generatedIds + 1 })
  | .openSession connection id metadata, w =>
    let (h, w) := w.newHandle id connection
    ((), { w with selection := w.selection.register h metadata })
  | .adopt h metadata, w => ((), { w with selection := w.selection.register h metadata })
  | .sessionOf id, w => (w.selection.session? id, w)
  | .metadataOf id, w => (w.selection.metadata? id, w)
  | .sessionIds, w => (w.selection.ids, w)
  | .selectedId, w => (w.selection.selected, w)
  | .isSelected id, w => (w.selection.isSelected id, w)
  | .selectedSession, w => (w.selection.selectedHandle, w)
  | .removeSession id, w =>
    let (removed, selection) := w.selection.remove id
    (removed, { w with selection := selection })
  | .clearSessions, w =>
    let (changed, selection) := w.selection.clear
    (changed, { w with selection := selection })
  | .selectSession id, w =>
    let (changed, selection) := w.selection.select id
    (changed, { w with selection := selection })
  | .beginSelectionNotice, w =>
    let (called, listeners) := w.selectionListeners.begin
    (called, { w with selectionListeners := listeners })
  | .endSelectionNotice called, w =>
    ((), { w with selectionListeners := w.selectionListeners.finish called })
  | .beginTreeNotice, w =>
    let (called, listeners) := w.treeListeners.begin
    (called, { w with treeListeners := listeners })
  | .endTreeNotice called, w => ((), { w with treeListeners := w.treeListeners.finish called })
  | .clearCache, w => ((), { w with cache := w.cache.clear })
  | .epoch, w => (w.cache.epoch, w)
  | .cached k, w => (w.cache.stored.find? k, w)
  | .request k, w =>
    let (found, cache) := w.cache.request k
    (found, { w with cache := cache })
  | .settle k ticket outcome, w => ((), { w with cache := w.cache.settle k ticket outcome })
  | .publish ticket outcome, w => ((), { w with cache := w.cache.publish ticket outcome })
  | .limit, w => (w.settings.limit, w)
  | .clearNotices, w => ((), { w with notices := [] })
  | .addNotice message, w => ((), { w with notices := w.notices ++ [message] })
  | .notices, w => (w.notices, w)

end World

end ImageBrowser
