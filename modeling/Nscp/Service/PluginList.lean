import Nscp.Threads.InFlight

/-!
# The modules that rounds walk

A round copies the list of slots and calls each module through its gate.  A removal closes the
gate of one module, waits for the rounds of other threads inside it, and then takes the module
out or opens the gate again; the removal of everything does so for the whole list.  Threads
interleave between the locked steps, and a call may start rounds and removals of its own.
-/

namespace Nscp.Service.PluginList

open Function Threads Threads.Gate

structure Slot where
  id : ℕ
  gate : ℕ
  deriving DecidableEq

/-- Where a round is with the first of the slots left to it: the call may hold a copy of the
module. -/
inductive Phase
  | idle
  | entered
  | calling (holding : Bool)
  | left

/-- A gate the removal of everything has closed: the number it got, and how often the gate had
been reopened. -/
structure Item where
  gate : ℕ
  cutoff : ℕ
  reopens : ℕ

/-- An activity of a thread. -/
inductive Frame
  | round (todo : List Slot) (phase : Phase)
  | removal (gate cutoff : ℕ) (stage : Stage)
  | closingAll (toClose : List Slot) (closed : List Item)
  | drainingAll (closed : List Item) (clean : Bool)

/-- The threads' activities are innermost first.  `lock` is the thread that holds the list's lock
for longer than a step. -/
structure State where
  plugins : List Slot
  lock : Option Thread
  gates : ℕ → Gate
  frames : Thread → List Frame

def State.initial : State :=
  ⟨[], none, fun _ => {}, fun _ => []⟩

def State.setGate (s : State) (g : ℕ) (gate : Gate) : State :=
  { s with gates := update s.gates g gate }

def State.setFrames (s : State) (t : Thread) (frames : List Frame) : State :=
  { s with frames := update s.frames t frames }

section Fields

variable (s : State) (g : ℕ) (gate : Gate) (t : Thread) (frames : List Frame)

theorem State.setGate_gates_self : (s.setGate g gate).gates g = gate := by
  simp [State.setGate]

theorem State.setGate_gates_of_ne {g' : ℕ} (h : g' ≠ g) :
    (s.setGate g gate).gates g' = s.gates g' := by
  simp [State.setGate, update_of_ne h]

theorem State.setGate_self : s.setGate g (s.gates g) = s := by
  rw [State.setGate, update_eq_self]

theorem State.setFrames_frames_self : (s.setFrames t frames).frames t = frames := by
  simp [State.setFrames]

theorem State.setFrames_frames_of_ne {t' : Thread} (h : t' ≠ t) :
    (s.setFrames t frames).frames t' = s.frames t' := by
  simp [State.setFrames, update_of_ne h]

end Fields

/-- The thread runs code of its own: a module's, or that of a removal between its steps. -/
def Frame.suspended : Frame → Bool
  | .round _ (.calling _) => true
  | .removal _ _ _ => true
  | _ => false

def mayCall : List Frame → Bool
  | [] => true
  | frame :: _ => frame.suspended

inductive Action
  | addPlugin (id gate : ℕ)
  | startRound (t : Thread)
  | enter (t : Thread)
  | copy (t : Thread)
  | endCall (t : Thread) (threw : Bool)
  | leave (t : Thread)
  | endRound (t : Thread)
  | closePlugin (t : Thread) (id : ℕ)
  | drain (t : Thread) (timedOut : Bool)
  | reopen (t : Thread)
  | giveUp (t : Thread)
  | eraseSlot (t : Thread) (locked : Bool)
  | take (t : Thread)
  | removeAll (t : Thread)
  | closeNext (t : Thread)
  | clear (t : Thread)
  | drainNext (t : Thread) (timedOut : Bool)
  | takeNext (t : Thread)
  | endRemoveAll (t : Thread)

/-! ## Rounds -/

section

variable (s : State) (t : Thread)

def startRound : Option State :=
  if s.lock = none ∧ mayCall (s.frames t) then
    some (s.setFrames t (.round s.plugins .idle :: s.frames t))
  else none

def enter : Option State :=
  match s.frames t with
  | .round (slot :: todo) .idle :: below =>
    match (s.gates slot.gate).tracker.tryEnter t with
    | none => some (s.setFrames t (.round todo .idle :: below))
    | some tracker =>
      some ((s.setGate slot.gate { s.gates slot.gate with tracker := tracker }).setFrames t
        (.round (slot :: todo) .entered :: below))
  | _ => none

def copy : Option State :=
  match s.frames t with
  | .round (slot :: todo) .entered :: below =>
    some (s.setFrames t (.round (slot :: todo) (.calling (s.gates slot.gate).value) :: below))
  | _ => none

def endCall (threw : Bool) : Option State :=
  match s.frames t with
  | .round (slot :: todo) (.calling _) :: below =>
    some (s.setFrames t (.round (slot :: if threw then [] else todo) .left :: below))
  | _ => none

end

def leave (s : State) (t : Thread) : Option State :=
  match s.frames t with
  | .round (slot :: todo) .left :: below =>
    some ((s.setGate slot.gate
      { s.gates slot.gate with tracker := (s.gates slot.gate).tracker.leave t }).setFrames t
        (.round todo .idle :: below))
  | _ => none

section

variable (s : State) (t : Thread)

def endRound : Option State :=
  match s.frames t with
  | .round [] .idle :: below => some (s.setFrames t below)
  | _ => none

/-! ## Removals -/

/-- Removals of one module do not overlap. -/
def closePlugin (id : ℕ) : Option State :=
  if s.lock = none ∧ mayCall (s.frames t) then
    match s.plugins.find? (·.id = id) with
    | none => none
    | some slot =>
      if (s.gates slot.gate).removing = none then
        some ((s.setGate slot.gate { s.gates slot.gate with
          tracker := (s.gates slot.gate).tracker.close, removing := some t }).setFrames t
            (.removal slot.gate (s.gates slot.gate).tracker.cutoff .closed :: s.frames t))
      else none
  else none

/-- A wait may run out at any time, and comes back clean when it finds no other thread; the gate
keeps who found that and how often it had been reopened. -/
def drain (timedOut : Bool) : Option State :=
  match s.frames t with
  | .removal g cutoff .closed :: below =>
    if timedOut then some (s.setFrames t (.removal g cutoff (.drained false) :: below))
    else if (s.gates g).tracker.othersBefore t cutoff then none
    else some ((s.setGate g
      { s.gates g with released := (t, (s.gates g).reopens) :: (s.gates g).released }).setFrames t
        (.removal g cutoff (.drained true) :: below))
  | _ => none

end

def reopen (s : State) (t : Thread) : Option State :=
  match s.frames t with
  | .removal g _ (.drained _) :: below =>
    some ((s.setGate g { s.gates g with
      tracker := (s.gates g).tracker.reopen
      removing := none
      reopens := (s.gates g).reopens + 1 }).setFrames t below)
  | _ => none

section

variable (s : State) (t : Thread)

def abandon (g : ℕ) (below : List Frame) : State :=
  (s.setGate g { s.gates g with removing := none }).setFrames t below

def giveUp : Option State :=
  match s.frames t with
  | .removal g _ (.drained false) :: below => some (abandon s t g below)
  | _ => none

/-- `finish` after a clean wait takes the slot out of the list, unless the lock could not be had or
the slot is gone. -/
def eraseSlot (locked : Bool) : Option State :=
  match s.frames t with
  | .removal g cutoff (.drained true) :: below =>
    if !locked then some (abandon s t g below)
    else if s.lock ≠ none then none
    else if s.plugins.any (·.gate = g) then
      some { s.setFrames t (.removal g cutoff .erased :: below) with
        plugins := s.plugins.filter (·.gate ≠ g) }
    else some (abandon s t g below)
  | _ => none

def take : Option State :=
  match s.frames t with
  | .removal g _ .erased :: below =>
    some ((s.setGate g { s.gates g with
      value := false
      removing := none
      handed := some t }).setFrames t below)
  | _ => none

/-! ## The removal of everything -/

def removeAll : Option State :=
  if s.lock = none ∧ mayCall (s.frames t) then
    some { s.setFrames t (.closingAll s.plugins [] :: s.frames t) with lock := some t }
  else none

def closeNext : Option State :=
  match s.frames t with
  | .closingAll (slot :: toClose) closed :: below =>
    some ((s.setGate slot.gate
      { s.gates slot.gate with tracker := (s.gates slot.gate).tracker.close }).setFrames t
        (.closingAll toClose (closed ++
          [⟨slot.gate, (s.gates slot.gate).tracker.cutoff, (s.gates slot.gate).reopens⟩]) :: below))
  | _ => none

def clear : Option State :=
  match s.frames t with
  | .closingAll [] closed :: below =>
    some { s.setFrames t (.drainingAll closed false :: below) with plugins := [], lock := none }
  | _ => none

def drainNext (timedOut : Bool) : Option State :=
  match s.frames t with
  | .drainingAll (item :: closed) false :: below =>
    if timedOut then some (s.setFrames t (.drainingAll closed false :: below))
    else if (s.gates item.gate).tracker.othersBefore t item.cutoff then none
    else some ((s.setGate item.gate
      { s.gates item.gate with
        released := (t, item.reopens) :: (s.gates item.gate).released }).setFrames t
        (.drainingAll (item :: closed) true :: below))
  | _ => none

def takeNext : Option State :=
  match s.frames t with
  | .drainingAll (item :: closed) true :: below =>
    some ((s.setGate item.gate { s.gates item.gate with value := false }).setFrames t
      (.drainingAll closed false :: below))
  | _ => none

def endRemoveAll : Option State :=
  match s.frames t with
  | .drainingAll [] false :: below => some (s.setFrames t below)
  | _ => none

end

/-! ## Runs -/

def addPlugin (s : State) (id gate : ℕ) : Option State :=
  if s.lock = none ∧ (∀ slot ∈ s.plugins, slot.id ≠ id ∧ slot.gate ≠ gate) ∧ s.gates gate = {} then
    some { s with plugins := s.plugins ++ [⟨id, gate⟩] }
  else none

def step (s : State) : Action → Option State
  | .addPlugin id gate => addPlugin s id gate
  | .startRound t => startRound s t
  | .enter t => enter s t
  | .copy t => copy s t
  | .endCall t threw => endCall s t threw
  | .leave t => leave s t
  | .endRound t => endRound s t
  | .closePlugin t id => closePlugin s t id
  | .drain t timedOut => drain s t timedOut
  | .reopen t => reopen s t
  | .giveUp t => giveUp s t
  | .eraseSlot t locked => eraseSlot s t locked
  | .take t => take s t
  | .removeAll t => removeAll s t
  | .closeNext t => closeNext s t
  | .clear t => clear s t
  | .drainNext t timedOut => drainNext s t timedOut
  | .takeNext t => takeNext s t
  | .endRemoveAll t => endRemoveAll s t

/-- An action that is not possible does nothing. -/
def next (s : State) (a : Action) : State :=
  (step s a).getD s

def run (actions : List Action) : State :=
  actions.foldl next State.initial

/-! ## What is seen of a state -/

/-- The round has entered the gate and not left it. -/
def Frame.inside (g : ℕ) : Frame → Bool
  | .round (slot :: _) .entered | .round (slot :: _) (.calling _) | .round (slot :: _) .left =>
    slot.gate = g
  | _ => false

/-- The round has a copy of the module. -/
def Frame.holds (g : ℕ) : Frame → Bool
  | .round (slot :: _) (.calling true) => slot.gate = g
  | _ => false

def calls (s : State) : Action → Option ℕ
  | .copy t =>
    match s.frames t with
    | .round (slot :: _) .entered :: _ => some slot.gate
    | _ => none
  | _ => none

/-- The actions that may change the order of the modules. -/
def Action.rearranges : Action → Bool
  | .addPlugin _ _ | .eraseSlot _ _ | .clear _ => true
  | _ => false

end Nscp.Service.PluginList
