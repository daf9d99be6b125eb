import Mathlib.Order.MinMax
import Ractor.ActorStatus
import Ractor.KeyedTables
import Ractor.ReachableRuns

/-!
# The name registry and the pid registry

A local actor is registered when its cell is constructed, under its name if it has one and under
its pid. A remote actor is registered nowhere. Both registries forget an actor when its status
first reaches `Stopping`; the name registry is given nothing but the name.

Cells are numbered in the order of their construction. The process groups, which a stopping actor
leaves as well, are the subject of later modules.
-/

namespace Ractor
open Function

inductive ActorId where
  | local (pid : UInt64)
  | remote (nodeId pid : UInt64)
  deriving DecidableEq, Repr

def ActorId.isLocal : ActorId → Bool
  | .local _ => true
  | .remote _ _ => false

structure RegisteredCell (Name : Type) where
  name : Option Name
  id : ActorId
  status : ActorStatus:=.unstarted
  deriving DecidableEq, Repr

structure Registries (Name : Type) where
  /-- `ACTOR_ID_ALLOCATOR` -/
  allocator : UInt64:=0
  cells : List (RegisteredCell Name):=[]
  /-- `ACTOR_REGISTRY` -/
  names : Name → Option ℕ:=fun _ => none
  /-- `PID_REGISTRY` -/
  pids : ActorId → Option ℕ:=fun _ => none

/-- The ways in which a spawn is refused before the actor is started. -/
inductive SpawnRefusal (Name : Type) where
  | nameRegistered (name : Name)
  | pidAlive (id : ActorId)
  | notRemote (id : ActorId)
  deriving DecidableEq, Repr

inductive RegistryStep (Name : Type) where
  | new (name : Option Name)
  | newRemote (name : Option Name) (id : ActorId)
  | setStatus (actor : ℕ) (status : ActorStatus)
  deriving DecidableEq, Repr

variable {actor : ℕ} {status : ActorStatus} {statuses : List ActorStatus}

namespace Registries
open KeyedTable

variable {Name : Type} [DecidableEq Name] (s : Registries Name) (name : Option Name) (id : ActorId)
  (cell : RegisteredCell Name)

def register (name : Name) (actor : ℕ) : Except (SpawnRefusal Name) (Registries Name) :=
  match s.names name with
  | some _ => .error (.nameRegistered name)
  | none => .ok {s with names:=update s.names name (some actor)}

def unregister (name : Name) : Registries Name :=
  {s with names:=update s.names name none}

def registerPid (actor : ℕ) : Except (SpawnRefusal Name) (Registries Name) :=
  if id.isLocal then
    match s.pids id with
    | some _ => .error (.pidAlive id)
    | none => .ok {s with pids:=update s.pids id (some actor)}
  else .ok s

def unregisterPid : Registries Name :=
  if id.isLocal then {s with pids:=update s.pids id none} else s

def getNewLocalId : ActorId × Registries Name :=
  (.local s.allocator,{s with allocator:=s.allocator+1})

def addCell : Registries Name :=
  {s with cells:=s.cells++[cell]}

/-- `ActorCell::new`, with the reason when it fails and the registries in either case. -/
def new : Option (SpawnRefusal Name) × Registries Name :=
  let (id,s) := s.getNewLocalId
  let actor := s.cells.length
  match name with
  | none =>
    match s.registerPid id actor with
    | .error e => (some e,s)
    | .ok s => (none,s.addCell {name:=none,id})
  | some n =>
    match s.register n actor with
    | .error e => (some e,s)
    | .ok s =>
      match s.registerPid id actor with
      | .error e => (some e,s.unregister n)
      | .ok s => (none,s.addCell {name:=some n,id})

/-- `ActorCell::new_remote`, as `spawn_linked_remote` uses it. -/
def newRemote : Option (SpawnRefusal Name) × Registries Name :=
  if id.isLocal then (some (.notRemote id),s) else (none,s.addCell {name,id})

def setStatus (actor : ℕ) (status : ActorStatus) : Registries Name :=
  match s.cells[actor]? with
  | none => s
  | some cell =>
    let s := {s with
      cells:=s.cells.set actor {cell with status:=max cell.status status}}
    if .stopping ≤ status ∧ cell.status < .stopping then
      let s := s.unregisterPid cell.id
      match cell.name with
      | none => s
      | some name => s.unregister name
    else s

def step : RegistryStep Name → Registries Name
  | .new name => (s.new name).2
  | .newRemote name id => (s.newRemote name id).2
  | .setStatus actor status => s.setStatus actor status

def Step (label : RegistryStep Name) (s' : Registries Name) : Prop :=
  s'=s.step label

def Initial : Prop:=s={}

/-! ### What the operations do -/

/-- A constructor that fails has drawn a pid and nothing else. -/
theorem new_cases : (∃e,s.new name=(some e,{s with allocator:=s.allocator+1})) ∨
      (∀n,name=some n→s.names n=none) ∧ s.pids (.local s.allocator)=none ∧ s.new name=(none,
          { allocator:=s.allocator+1
            cells:=s.cells++[{name,id:=.local s.allocator}]
            names:=put s.names name (some s.cells.length)
            pids:=update s.pids (.local s.allocator) (some s.cells.length) }) := by
  have hl : ActorId.isLocal (.local s.allocator)=true:=rfl
  cases hpid : s.pids (.local s.allocator) with
  | some b =>
    left
    cases name with
    | none => exact ⟨.pidAlive (.local s.allocator),by simp [new,getNewLocalId,registerPid,hl,hpid]⟩
    | some n =>
      cases hn : s.names n with
      | some a => exact ⟨.nameRegistered n,by simp [new,getNewLocalId,register,hn]⟩
      | none =>
        -- the name has been registered and is given back
        refine ⟨.pidAlive (.local s.allocator),?_⟩
        simp [new,getNewLocalId,register,registerPid,unregister,hl,hn,hpid]
  | none =>
    cases name with
    | none =>
      refine .inr ⟨by simp,rfl,?_⟩
      simp [new,getNewLocalId,registerPid,addCell,hl,hpid]
    | some n =>
      cases hn : s.names n with
      | some a => exact .inl ⟨.nameRegistered n,by simp [new,getNewLocalId,register,hn]⟩
      | none =>
        refine .inr ⟨by simpa using hn,rfl,?_⟩
        simp [new,getNewLocalId,register,registerPid,addCell,hl,hn,hpid]

omit [DecidableEq Name] in
theorem newRemote_cases : (∃e,s.newRemote name id=(some e,s)) ∨
      id.isLocal=false ∧ s.newRemote name id=(none,s.addCell {name,id}) := by
  unfold newRemote
  cases hid : id.isLocal with
  | true => exact .inl ⟨.notRemote id,rfl⟩
  | false => exact .inr ⟨rfl,rfl⟩

def nameKey : Option Name :=
  if cell.id.isLocal ∧ cell.status < .stopping then cell.name else none

def pidKey : Option ActorId :=
  if cell.id.isLocal ∧ cell.status < .stopping then some cell.id else none

variable {cell} {s}

section

omit [DecidableEq Name]

theorem nameKey_remote (h : cell.id.isLocal=false) : nameKey cell=none := by simp [nameKey,h]

theorem pidKey_remote (h : cell.id.isLocal=false) : pidKey cell=none := by simp [pidKey,h]

theorem nameKey_stopping (h : .stopping≤cell.status) :
    nameKey cell=none := by simp [nameKey,h.not_gt]

theorem pidKey_stopping (h : .stopping≤cell.status) :
    pidKey cell=none := by simp [pidKey,h.not_gt]

end

theorem setStatus_quiet (hc : s.cells[actor]?=some cell)
    (h : ¬ (.stopping ≤ status ∧ cell.status < .stopping)) :
    s.setStatus actor status =
      {s with cells:=s.cells.set actor {cell with status:=max cell.status status}} := by
  simp [setStatus,hc,h]

/-- The transition to `Stopping`: the pid of a local actor goes, and the name of any actor. -/
theorem setStatus_stopping (hc : s.cells[actor]?=some cell)
    (h : .stopping ≤ status ∧ cell.status < .stopping) :
    s.setStatus actor status =
      { s with
        cells:=s.cells.set actor {cell with status:=max cell.status status}
        names:=put s.names cell.name none
        pids:=put s.pids (pidKey cell) none } := by
  rw [setStatus,hc]
  cases hn : cell.name <;> cases hid : cell.id.isLocal <;>
    simp [h,hn,hid,pidKey,unregisterPid,unregister]

/-! ### Ownership -/

/-- The registries hold exactly the local actors that have not reached `Stopping`. -/
structure Coherent (s : Registries Name) : Prop where
  names : Indexed nameKey s.names s.cells
  pids : Indexed pidKey s.pids s.cells

/-- No remote actor takes the name of somebody else with it when it stops. -/
def Harmless (s : Registries Name) : RegistryStep Name → Prop
  | .setStatus actor status => ∀cell n,s.cells[actor]?=some cell → cell.id.isLocal=false →
      cell.status < .stopping → .stopping ≤ status → cell.name=some n → s.names n=none
  | _ => True

omit [DecidableEq Name] in
theorem Coherent.initial : Coherent ({} : Registries Name) :=
  ⟨fun _ _ => by simp,fun _ _ => by simp⟩

theorem Coherent.new (h : s.Coherent) (name : Option Name) : (s.new name).2.Coherent := by
  obtain ⟨e,he⟩ | ⟨hna,hpid,he⟩:=s.new_cases name
  · rw [he]
    exact ⟨h.names,h.pids⟩
  · rw [he]
    let cell : RegisteredCell Name := {name,id:=.local s.allocator}
    have hn : ∀k,nameKey cell=some k→s.names k=none:=hna
    have hp : ∀k,pidKey cell=some k→s.pids k=none := by
      rintro k ⟨⟩
      exact hpid
    exact ⟨h.names.push hn,h.pids.push hp⟩

/-- A remote actor has no key in either registry. -/
theorem Coherent.addRemote (h : s.Coherent) (hid : cell.id.isLocal=false) :
    (s.addCell cell).Coherent := by
  have hn : Indexed nameKey (put s.names (nameKey cell) _) (s.cells++[cell]) :=
    h.names.push (by simp [nameKey_remote hid])
  have hp : Indexed pidKey (put s.pids (pidKey cell) _) (s.cells++[cell]) :=
    h.pids.push (by simp [pidKey_remote hid])
  rw [nameKey_remote hid] at hn
  rw [pidKey_remote hid] at hp
  exact ⟨hn,hp⟩

theorem Coherent.newRemote (h : s.Coherent) (name : Option Name) (id : ActorId) :
    (s.newRemote name id).2.Coherent := by
  obtain ⟨e,he⟩ | ⟨hid,he⟩:=s.newRemote_cases name id
  · rw [he]
    exact h
  · rw [he]
    exact h.addRemote hid

/-- The name that a harmless transition to `Stopping` unregisters is that of the actor itself. -/
theorem Harmless.put_name (hc : s.cells[actor]?=some cell)
    (hg : s.Harmless (.setStatus actor status))
    (hs : .stopping ≤ status ∧ cell.status < .stopping) :
    put s.names cell.name none=put s.names (nameKey cell) none := by
  cases hid : cell.id.isLocal with
  | true => simp [nameKey,hid,hs.2]
  | false =>
    rw [nameKey_remote hid,put_none]
    exact put_none_of_free fun n hn => hg cell n hc hid hs.2 hs.1 hn

theorem Coherent.setStatus (h : s.Coherent) (hg : s.Harmless (.setStatus actor status)) :
    (s.setStatus actor status).Coherent := by
  cases hce : s.cells[actor]? with
  | none => simpa [Registries.setStatus,hce] using h
  | some cell =>
    by_cases hst : .stopping ≤ status ∧ cell.status < .stopping
    · rw [setStatus_stopping hce hst,Harmless.put_name hce hg hst]
      have hmax : .stopping ≤ max cell.status status:=le_max_of_le_right hst.1
      exact ⟨h.names.clear hce (nameKey_stopping hmax),h.pids.clear hce (pidKey_stopping hmax)⟩
    · rw [setStatus_quiet hce hst]
      -- the actor stays on its side of `Stopping`
      have hsi : max cell.status status < .stopping ↔ cell.status < .stopping := by
        rw [max_lt_iff]
        refine ⟨And.left,fun hc => ⟨hc,?_⟩⟩
        exact lt_of_not_ge fun hs => hst ⟨hs,hc⟩
      exact ⟨h.names.set hce (by simp only [nameKey,hsi]),
        h.pids.set hce (by simp only [pidKey,hsi])⟩

theorem Coherent.step {s' : Registries Name} {label : RegistryStep Name} (h : s.Coherent)
    (hs : guarded Harmless Step s label s') : s'.Coherent := by
  obtain ⟨hg,rfl⟩:=hs
  cases label with
  | new name => exact h.new name
  | newRemote name id => exact h.newRemote name id
  | setStatus actor status => exact h.setStatus hg

theorem Coherent.reachable (h : Reachable Initial (guarded Harmless Step) s) : s.Coherent :=
  h.invariant (fun _ hs => hs ▸ Coherent.initial) fun _ _ _ hc hs => hc.step hs

/-! ### Spawns that fail -/

/-- The status of an actor is advanced by `start` and by the guard that gives the actor up. -/
def advance (s : Registries Name) (actor : ℕ) (statuses : List ActorStatus) : Registries Name :=
  statuses.foldl (fun s status => s.setStatus actor status) s

theorem setStatus_cells (hc : s.cells[actor]?=some cell) (status : ActorStatus) :
    (s.setStatus actor status).cells =
      s.cells.set actor {cell with status:=max cell.status status} := by
  by_cases hs : .stopping ≤ status ∧ cell.status < .stopping
  · rw [setStatus_stopping hc hs]
  · rw [setStatus_quiet hc hs]

/-- An actor that nothing but its own start and its end happens to. The cells before it are
untouched, and a name that it does not own stays free. -/
structure Alone (cells : List (RegisteredCell Name)) (cell : RegisteredCell Name)
    (s : Registries Name) : Prop where
  coherent : s.Coherent
  cells_eq : s.cells=cells++[cell]
  spared : cell.id.isLocal=false → ∀n,cell.name=some n → s.names n=none

theorem Alone.setStatus {cells : List (RegisteredCell Name)} (h : Alone cells cell s)
    (status : ActorStatus) :
    Alone cells {cell with status:=max cell.status status} (s.setStatus cells.length status) := by
  have hc : s.cells[cells.length]?=some cell := by simp [h.cells_eq]
  have hg : s.Harmless (.setStatus cells.length status) := by
    intro cell' n hc' hid _ _ hn
    obtain rfl : cell=cell':=Option.some.inj (hc.symm.trans hc')
    exact h.spared hid n hn
  refine ⟨h.coherent.setStatus hg,?_,?_⟩
  · rw [setStatus_cells hc,h.cells_eq]
    simp
  · intro hid n hn
    by_cases hs : .stopping ≤ status ∧ cell.status < .stopping
    · have hr : cell.id.isLocal=false:=hid
      rw [setStatus_stopping hc hs,Harmless.put_name hc hg hs,nameKey_remote hr]
      exact h.spared hid n hn
    · rw [setStatus_quiet hc hs]
      exact h.spared hid n hn

/-- However the status is advanced, past `Stopping` the registries are those of the other cells. -/
theorem Alone.advance {cells : List (RegisteredCell Name)} {names : Name→Option ℕ}
    {pids : ActorId→Option ℕ} (hna : Indexed nameKey names cells)
    (hpi : Indexed pidKey pids cells) (h : Alone cells cell s)
    (hs : .stopping≤cell.status ∨ ∃status∈statuses,.stopping ≤ status) :
    (s.advance cells.length statuses).names=names ∧
      (s.advance cells.length statuses).pids=pids := by
  induction statuses generalizing cell s with
  | nil =>
    have hd : .stopping≤cell.status := by simpa using hs
    have hn : Indexed nameKey (put names (nameKey cell) _) (cells++[cell]) :=
      hna.push (by simp [nameKey_stopping hd])
    have hp : Indexed pidKey (put pids (pidKey cell) _) (cells++[cell]) :=
      hpi.push (by simp [pidKey_stopping hd])
    rw [nameKey_stopping hd,put_none,← h.cells_eq] at hn
    rw [pidKey_stopping hd,put_none,← h.cells_eq] at hp
    exact ⟨h.coherent.names.unique hn,h.coherent.pids.unique hp⟩
  | cons status rest ih =>
    refine ih (h.setStatus status) ?_
    rw [le_max_iff]
    simpa [or_assoc] using hs

theorem Coherent.failed_new (h : s.Coherent) {name : Option Name} (hnew : (s.new name).1=none)
    (hs : ∃status∈statuses,.stopping ≤ status) :
    ((s.new name).2.advance s.cells.length statuses).names=s.names ∧
      ((s.new name).2.advance s.cells.length statuses).pids=s.pids := by
  have ha : Alone s.cells {name,id:=.local s.allocator} (s.new name).2 := by
    refine ⟨h.new name,?_,by simp [ActorId.isLocal]⟩
    obtain ⟨e,he⟩ | ⟨-,-,he⟩:=s.new_cases name
    · rw [he] at hnew
      cases hnew
    · rw [he]
  exact ha.advance h.names h.pids (.inr hs)

theorem Coherent.failed_newRemote (h : s.Coherent) {name : Option Name} {id : ActorId}
    (hnew : (s.newRemote name id).1=none) (hf : ∀n,name=some n→s.names n=none)
    (hs : ∃status∈statuses,.stopping ≤ status) :
    ((s.newRemote name id).2.advance s.cells.length statuses).names=s.names ∧
      ((s.newRemote name id).2.advance s.cells.length statuses).pids=s.pids := by
  have ha : Alone s.cells {name,id} (s.newRemote name id).2 := by
    obtain ⟨e,he⟩ | ⟨hid,he⟩:=s.newRemote_cases name id
    · rw [he] at hnew
      cases hnew
    · rw [he]
      exact ⟨h.addRemote hid,rfl,fun _ => hf⟩
  exact ha.advance h.names h.pids (.inr hs)

/-! ### The registry over whole runs -/

/-- A local cell is constructed only when its name could be registered; it owns the name until it
stops. -/
def Owns (s : Registries Name) (actor : ℕ) (name : Name) : Prop :=
  ∃cell,s.cells[actor]?=some cell ∧ cell.id.isLocal=true ∧ cell.name=some name ∧
    cell.status < .stopping

omit [DecidableEq Name] in
theorem Coherent.owns_iff (h : s.Coherent) (name : Name) (actor : ℕ) :
    s.names name=some actor ↔ s.Owns actor name := by
  rw [h.names name actor]
  refine exists_congr fun cell => and_congr_right fun _ => ?_
  simp only [nameKey,Option.ite_none_right_eq_some]
  tauto

/-- The transitions of one actor leave the name of another one alone. -/
theorem Coherent.names_setStatus (h : s.Coherent) {other : ℕ}
    (hg : s.Harmless (.setStatus other status)) {name : Name} (hne : actor≠other)
    (hn : s.names name=some actor) : (s.setStatus other status).names name=some actor := by
  rw [(h.setStatus hg).owns_iff]
  obtain ⟨cell,hc,how⟩:=(h.owns_iff name actor).mp hn
  refine ⟨cell,?_,how⟩
  cases ho : s.cells[other]? with
  | none => simpa [Registries.setStatus,ho] using hc
  | some c => rw [setStatus_cells ho,List.getElem?_set_ne hne.symm,hc]

/-- Along every run in which no remote actor stops under a registered name, the name registry maps
`n` to `a` exactly if `a` is the local actor that registered `n` and it has not reached
`Stopping`; no transition of another actor removes an entry; and a spawn that fails, when the cell
is constructed or when the actor is started, leaves both registries as they were. -/
theorem registry_entries_owned {s : Registries Name}
    (h : Reachable Initial (guarded Harmless Step) s) :
    (∀name actor,s.names name=some actor ↔ s.Owns actor name) ∧
    (∀other status,s.Harmless (.setStatus other status) → ∀name actor,actor≠other →
      s.names name=some actor → (s.setStatus other status).names name=some actor) ∧
    (∀name,(s.new name).1≠none → (s.new name).2.names=s.names ∧ (s.new name).2.pids=s.pids) ∧
    (∀name id,(s.newRemote name id).1≠none → (s.newRemote name id).2=s) ∧
    (∀name statuses,(s.new name).1=none → (∃status∈statuses,.stopping ≤ status) →
      ((s.new name).2.advance s.cells.length statuses).names=s.names ∧
        ((s.new name).2.advance s.cells.length statuses).pids=s.pids) ∧
    (∀name id statuses,(s.newRemote name id).1=none →
      (∀n,name=some n → s.names n=none) → (∃status∈statuses,.stopping ≤ status) →
      ((s.newRemote name id).2.advance s.cells.length statuses).names=s.names ∧
        ((s.newRemote name id).2.advance s.cells.length statuses).pids=s.pids) := by
  have hc:=Coherent.reachable h
  refine ⟨hc.owns_iff,fun other status hg name actor => hc.names_setStatus hg,?_,?_,
    fun name statuses hnew => hc.failed_new hnew,
    fun name id statuses hnew hfree => hc.failed_newRemote hnew hfree⟩
  · intro name hnew
    obtain ⟨e,he⟩ | ⟨-,-,he⟩:=s.new_cases name
    · rw [he]
      exact ⟨rfl,rfl⟩
    · exact absurd (by rw [he]) hnew
  · intro name id hnew
    obtain ⟨e,he⟩ | ⟨-,he⟩:=s.newRemote_cases name id
    · rw [he]
    · exact absurd (by rw [he]) hnew

/-- A local actor named `7`, next to a remote actor named `8` that stops. -/
theorem registry_entries_owned_beside_remote :
    ∃s : Registries ℕ,Reachable Initial (guarded Harmless Step) s ∧ s.cells.length=2 ∧
      s.names 7=some 0 ∧ s.Owns 0 7 := by
  let s₁ := ({} : Registries ℕ).step (.new (some 7))
  let s₂ := s₁.step (.newRemote (some 8) (.remote 1 1))
  let s₃ := s₂.step (.setStatus 1 .stopping)
  have hg : s₂.Harmless (.setStatus 1 .stopping) := by
    intro cell n hcell _ _ _ hname
    cases hcell
    cases hname
    rfl
  have h₁ : guarded Harmless Step {} (.new (some 7)) s₁:=⟨trivial,rfl⟩
  have h₂ : guarded Harmless Step s₁ (.newRemote (some 8) (.remote 1 1)) s₂:=⟨trivial,rfl⟩
  have h₃ : guarded Harmless Step s₂ (.setStatus 1 .stopping) s₃:=⟨hg,rfl⟩
  have hr : Reachable Initial (guarded Harmless Step) s₃ :=
    .next (.next (.next (.start rfl) h₁) h₂) h₃
  exact ⟨s₃,hr,rfl,rfl,((registry_entries_owned hr).1 7 0).mp rfl⟩

/-- A remote actor that carries the name of a local one unregisters it when it stops. -/
theorem registry_entry_removed_by_remote_actor :
    ∃s : Registries ℕ,Reachable Initial Step s ∧ s.Owns 0 7 ∧ s.names 7=none := by
  let s₁ := ({} : Registries ℕ).step (.new (some 7))
  let s₂ := s₁.step (.newRemote (some 7) (.remote 1 1))
  let s₃ := s₂.step (.setStatus 1 .stopping)
  have h₁ : Step {} (.new (some 7)) s₁:=rfl
  have h₂ : Step s₁ (.newRemote (some 7) (.remote 1 1)) s₂:=rfl
  have h₃ : Step s₂ (.setStatus 1 .stopping) s₃:=rfl
  have hr : Reachable Initial Step s₃ := .next (.next (.next (.start rfl) h₁) h₂) h₃
  exact ⟨s₃,hr,⟨{name:=some 7,id:=.local 0},rfl,rfl,rfl,by decide⟩,rfl⟩

end Registries
end Ractor
