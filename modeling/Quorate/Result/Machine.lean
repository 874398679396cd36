import Quorate.Result.Store

/-!
What calls on results do, one critical section at a time. A running call is a stack of frames:
the topmost frame gets the answer, or the panic, of the call above it that has just ended, changes
the store, and either ends in turn or puts further frames on top. A frame that has to wait for a
lock or for a result has no step.

Client code is a parameter of the machine: callbacks, mergers and results of the client's own
making are pieces of code that make calls and end with an answer or a panic.
-/

set_option autoImplicit false

namespace Quorate

variable {V κ σ : Type}

/-- What a call ends with. -/
inductive Answer (V : Type) where
  | unit
  | flag (b : Bool)
  | outcome (o : Outcome V)
  | result (r : ResultId)
  | future (f : FutureId)
  | thread (t : Nat)
  /-- A number that means something to the client. -/
  | token (n : Nat)
  /-- Nothing to answer yet. -/
  | pending
  /-- The panic of a call that was guarded. -/
  | panicked (p : Panic)

/-- An answer, or the panic that is unwinding. -/
abbrev Return (V : Type) := Except Panic (Answer V)

/-- A result without a history. -/
inductive Seed (V : Type) where
  | settable
  | latch (count : Nat) (value : V)
  | foreign (done cancelled : Bool)

def Seed.result : Seed V → Result V κ
  | .settable => ⟨.fresh, .settable⟩
  | .latch count value =>
    let start : Cell V (Task κ) × Latch V := Latch.start count value
    ⟨start.1, .latch start.2⟩
  | .foreign done cancelled => ⟨.fresh, .foreign done cancelled⟩

inductive Call (V κ : Type) where
  | create (seed : Seed V)
  /-- Move a pending result to a terminal state and deliver its callbacks. -/
  | complete (r : ResultId) (state : State V)
  | countDown (r : ResultId)
  /-- Cancel as an observer. -/
  | cancel (r : ResultId)
  | register (r : ResultId) (task : Task κ)
  /-- Read the outcome, waiting for it as long as it takes or for a limited time. -/
  | get (r : ResultId) (timeout : Option Duration)
  /-- Poll for the outcome until it is there or the time is up. -/
  | within (r : ResultId) (patience : Duration)
  /-- A new merge of `sources`. -/
  | build (merger : Merger V κ) (sources : List ResultId)
  /-- A new future reading `r`. -/
  | await (r : ResultId)
  | poll (f : FutureId)
  /-- Change what a foreign result claims to be. -/
  | claim (r : ResultId) (done cancelled : Bool)
  /-- Run client code. -/
  | run (code : κ)
  /-- Hand a task to its executor. -/
  | perform (task : Task κ)
  /-- Throw a task away. -/
  | discard (task : Task κ)
  | sleep (d : Duration)
  /-- Make a call on a new thread. -/
  | fork (call : Call V κ)
  /-- The answer of a thread, if it ends within `patience`. -/
  | join (t : Nat) (patience : Duration)

inductive Frame (V κ : Type) where
  /-- Make a call. -/
  | call (c : Call V κ)
  /-- Run a callback. -/
  | start (callback : Callback κ)
  /-- Turn a panic into an answer. -/
  | guard
  /-- End the thread of a task, and a panic of the task with it. -/
  | threadEnd
  /-- Deliver the callbacks taken from `r`, then notify, then resume the first panic among them. -/
  | deliver (r : ResultId) (tasks : List (Task κ)) (first : Option Panic) (reply : Answer V)
  /-- First critical section of a merge that looks at its source: find the source. -/
  | lookup (merge : ResultId) (index : Nat)
  /-- Ask the source what became of it. -/
  | query (merge : ResultId) (index : Nat) (source : ResultId)
  /-- Second critical section: take the outcome of the source in. -/
  | commit (merge : ResultId) (index : Nat)
  /-- The merger of a merge is running under its lock. -/
  | merging (merge : ResultId)
  /-- The merger of a merge without sources is running. -/
  | opening (merge : ResultId)
  /-- Register a new merge on the sources that are left. -/
  | attach (merge : ResultId) (sources : List ResultId) (index : Nat)
  /-- Cancel the sources that are left of a cancelled merge, then deliver its callbacks. -/
  | sweep (merge : ResultId) (sources : List ResultId) (all : Bool) (drained : List (Task κ))
  /-- Read the outcome of `r`, now that it is known until when. -/
  | read (r : ResultId) (timeout : Option Duration) (deadline : Option Nat)
  /-- Wait for the outcome of `r`. -/
  | wait (r : ResultId) (timeout : Option Duration) (deadline : Option Nat) (terminalOnEntry : Bool)
  /-- Poll for the outcome of `r`. An outcome that is there is taken even if the time is up. -/
  | polling (r : ResultId) (deadline : Nat)
  /-- See whether a future was woken. -/
  | check (f : FutureId)
  | sleeping (deadline : Nat)
  | joining (t : Nat) (deadline : Nat)
  /-- Client code that waits for an answer. -/
  | client (code : κ)

/-- What the client is asked when a foreign result is used. -/
inductive Method (V κ : Type) where
  | register (task : Task κ)
  | get
  | cancel

/-- What a piece of client code does next. -/
inductive Action (V κ : Type) where
  /-- Make a call and go on with its answer. -/
  | call (c : Call V κ) (next : κ)
  /-- The same, with a panic of the call as an answer. -/
  | attempt (c : Call V κ) (next : κ)
  | finish (a : Answer V)
  | panic (p : Panic)

structure Client (V κ σ : Type) where
  resume : κ → Answer V → Store V κ σ → σ × Action V κ
  /-- The code behind a method of a foreign result. -/
  serve : ResultId → Method V κ → κ

/-- What a step leaves behind. -/
structure Effect (V κ σ : Type) where
  store : Store V κ σ
  /-- What the first of the frames, or else the frame below, goes on with. -/
  result : Return V
  frames : List (Frame V κ)

namespace Store

variable (s : Store V κ σ)

def answering (a : Answer V) : Option (Effect V κ σ) := some ⟨s, .ok a, []⟩

def raising (p : Panic) : Option (Effect V κ σ) := some ⟨s, .error p, []⟩

def continuing (frames : List (Frame V κ)) : Option (Effect V κ σ) := some ⟨s, .ok .unit, frames⟩

/-- Enter the critical section of a result, if its lock is not held. -/
def locking (r : ResultId) (f : Result V κ → Option (Effect V κ σ)) : Option (Effect V κ σ) :=
  match s.results[r]? with
  | none => none
  | some x => if x.isHeld then none else f x

/-- Apply a terminal state, then deliver the callbacks and answer `reply`. -/
def completing (r : ResultId) (x : Result V κ) (state : State V) (reply : Answer V) :
    Option (Effect V κ σ) :=
  match x.cell.transition state with
  | none => s.answering (.flag false)
  | some (cell, tasks) => (s.set r { x with cell }).continuing [.deliver r tasks none reply]

/-- The instant a wait of `timeout` ends at. There is none if it lies beyond the end of time. -/
def deadline (timeout : Option Duration) : Option Nat :=
  timeout.bind fun d =>
    let instant := s.now + d.nanoseconds
    if instant < Nat.pow 2 63 * Nat.pow 10 9 then some instant else none

/-- The first step of a call. -/
def enter (client : Client V κ σ) : Call V κ → Option (Effect V κ σ)
  | .create seed => (s.push seed.result).answering (.result s.results.length)
  | .complete r state => s.locking r fun x => s.completing r x state (.flag true)
  | .countDown r => s.locking r fun x =>
    match x.kind with
    | .latch latch =>
      match latch.acknowledge x.cell with
      | .late => s.answering (.flag false)
      | .counted latch => (s.set r { x with kind := .latch latch }).answering (.flag true)
      | .last cell latch tasks =>
        (s.set r ⟨cell, .latch latch⟩).continuing [.deliver r tasks none (.flag true)]
    | _ => none
  | .cancel r => s.locking r fun x =>
    match x.kind with
    | .settable => s.completing r x .cancelled (.flag true)
    | .latch _ => s.answering (.flag false)
    | .merge m =>
      match x.cell.transition .cancelled with
      | none => s.answering (.flag false)
      | some (cell, tasks) =>
        let s := s.set r ⟨cell, .merge { m with gathering := m.gathering.release }⟩
        some ⟨s, .ok (.flag true), [.sweep r m.gathering.sources true tasks]⟩
    | .foreign .. => s.continuing [.client (client.serve r .cancel)]
  | .register r task => s.locking r fun x =>
    if x.isForeign then s.continuing [.client (client.serve r (.register task))]
    else match x.cell.enqueue task with
      | none => s.continuing [.call (.perform task)]
      | some cell => (s.set r { x with cell }).answering .unit
  | .get r timeout =>
    match s.results[r]? with
    | none => none
    | some x =>
      if x.isForeign then s.continuing [.client (client.serve r .get)]
      else s.continuing [.read r timeout (s.deadline timeout)]
  | .within r patience => s.continuing [.polling r (s.now + patience.nanoseconds)]
  | .build merger sources =>
    let m := s.results.length
    let kind : Kind V κ := .merge ⟨merger, sources.length, .start sources, .free⟩
    let s := s.push ⟨.fresh, kind⟩
    if sources.isEmpty then
      match merger with
      | .plain merge =>
        match merge [] with
        | .error p => s.raising p
        | .ok o => some ⟨s, .ok (.outcome o), [.opening m]⟩
      | .code merge => s.continuing [.client (merge []), .opening m]
    else s.continuing [.attach m sources 0]
  | .await r =>
    let futures := s.futures ++ [{ result := r, phase := .created }]
    answering { s with futures } (.future s.futures.length)
  | .poll f =>
    match s.futures[f]? with
    | none => none
    | some future =>
      if future.phase = .created then
        (s.setPhase f .waiting).continuing
          [.call (.register future.result ⟨.signal f, .inline⟩), .check f]
      else s.continuing [.check f]
  | .claim r done cancelled => s.locking r fun x =>
    if x.isForeign then (s.set r { x with kind := .foreign done cancelled }).answering .unit
    else none
  | .run code => s.continuing [.client code]
  | .perform task =>
    match task.executor with
    | .inline => s.continuing [.start task.callback]
    | .spawn => s.continuing [.call (.fork (.perform { task with executor := .inline }))]
    | .join => s.continuing [.start task.callback, .threadEnd]
    | .refuse p => (s.dropTask task).raising p
  | .discard task => (s.dropTask task).answering .unit
  | .sleep d => s.continuing [.sleeping (s.now + d.nanoseconds)]
  | .fork _ => none
  | .join t patience => s.continuing [.joining t (s.now + patience.nanoseconds)]

/-- The panic of a merge whose source called back before it was done. -/
def notDone (index : Nat) : Panic :=
  "completion callback invoked for source " ++ toString index ++
    " which is not done. This is a bug in the source implementation"

/-- The panic of a merge whose source called back again. -/
def calledTwice (index : Nat) : Panic :=
  "source " ++ toString index ++
    " delivered its completion twice. This is a bug in the source implementation"

/-- Ask a source what became of it, on behalf of `merge`. -/
def query (client : Client V κ σ) (merge : ResultId) (index : Nat) (source : ResultId) :
    Option (Effect V κ σ) :=
  s.locking source fun x =>
    if !x.isDone then s.raising (notDone index)
    else if x.isCancelled then s.answering .unit
    else if x.isForeign then s.continuing [.client (client.serve source .get), .commit merge index]
    else match x.cell.state.outcome? with
      | none => none
      | some o => some ⟨s, .ok (.outcome o), [.commit merge index]⟩

/-- Give a merge the outcome of its merger and deliver its callbacks. -/
def merged (r : ResultId) (cell : Cell V (Task κ)) (m : Merge V κ) (o : Outcome V) :
    Option (Effect V κ σ) :=
  s.completing r ⟨cell, .merge { m with lock := .free }⟩ (.ofOutcome o) .unit

/-- Take in the outcome of the source at `index`. If it was the last one, the merger runs before
the lock is left; should it panic, the merge stays pending without sources or values. -/
def commit (merge : ResultId) (index : Nat) (o : Outcome V) : Option (Effect V κ σ) :=
  s.locking merge fun x =>
    match x.kind with
    | .merge m =>
      match Gathering.arrive x.cell m.gathering m.size index o with
      | .late => s.answering .unit
      | .outside => s.raising "index out of bounds"
      | .twice => s.raising (calledTwice index)
      | .recorded gathering =>
        (s.set merge { x with kind := .merge { m with gathering } }).answering .unit
      | .failed cell gathering tasks =>
        (s.set merge ⟨cell, .merge { m with gathering }⟩).continuing
          [.deliver merge tasks none .unit]
      | .complete values gathering =>
        let m := { m with gathering }
        match m.merger with
        | .plain f =>
          match f values with
          | .error p => (s.set merge ⟨x.cell, .merge { m with lock := .poisoned }⟩).raising p
          | .ok o => s.merged merge x.cell m o
        | .code f =>
          (s.set merge ⟨x.cell, .merge { m with lock := .held }⟩).continuing
            [.client (f values), .merging merge]
    | _ => none

/-- Go on with a frame once the call above it has answered. -/
def proceed (client : Client V κ σ) (a : Answer V) : Frame V κ → Option (Effect V κ σ)
  | .call c => s.enter client c
  | .start (.observe merge index) => s.continuing [.lookup merge index]
  | .start (.signal f) => (s.setPhase f .sent).answering .unit
  | .start (.client code) => s.continuing [.client code]
  | .guard => s.answering a
  | .threadEnd => s.answering .unit
  | .deliver r [] first reply =>
    match s.results[r]? with
    | none => none
    | some x =>
      if x.isHeld then none
      else
        let s := s.set r { x with cell := x.cell.notify }
        match first with
        | some p => s.raising p
        | none => s.answering reply
  | .deliver r (task :: tasks) first reply =>
    s.continuing [.call (.perform task), .deliver r tasks first reply]
  | .lookup merge index => s.locking merge fun x =>
    match x.kind with
    | .merge m =>
      match m.gathering.sources[index]? with
      | none => s.answering .unit
      | some source => s.continuing [.query merge index source]
    | _ => none
  | .query merge index source => s.query client merge index source
  | .commit merge index =>
    match a with
    | .outcome o => s.commit merge index o
    | _ => none
  | .merging merge =>
    match a, s.results[merge]? with
    | .outcome o, some ⟨cell, .merge m⟩ => s.merged merge cell m o
    | _, _ => none
  | .opening merge =>
    match a with
    | .outcome o => s.continuing [.call (.complete merge (.ofOutcome o)), .attach merge [] 0]
    | _ => none
  | .attach merge sources index => s.locking merge fun x =>
    match sources with
    | [] => s.answering (.result merge)
    | source :: sources =>
      if x.isDone then s.answering (.result merge)
      else s.continuing
        [.call (.register source ⟨.observe merge index, .inline⟩),
          .attach merge sources (index + 1)]
  | .sweep merge sources all drained =>
    match a with
    | .flag b =>
      match sources with
      | [] => s.continuing [.deliver merge drained none (.flag (all && b))]
      | source :: sources =>
        s.continuing [.call (.cancel source), .sweep merge sources (all && b) drained]
    | _ => none
  | .read r timeout deadline => s.locking r fun x =>
    s.continuing [.wait r timeout deadline !x.cell.state.isPending]
  | .wait r timeout deadline terminalOnEntry => s.locking r fun x =>
    match x.cell.release? terminalOnEntry, timeout, deadline with
    | some o, _, _ => s.answering (.outcome o)
    | none, some timeout, some deadline =>
      if deadline ≤ s.now then
        s.answering (.outcome (x.cell.state.outcome?.getD (.error (.timeout timeout))))
      else none
    | none, _, _ => none
  | .polling r deadline =>
    match s.results[r]? with
    | none => none
    | some x =>
      match x.cell.state.outcome? with
      | some o => s.answering (.outcome o)
      | none => if deadline ≤ s.now then s.answering .pending else none
  | .check f =>
    match s.futures[f]? with
    | none => none
    | some future =>
      match future.phase with
      | .sent => (s.setPhase f .finished).continuing [.call (.get future.result none)]
      | .dropped => (s.setPhase f .finished).answering (.outcome (.error .cancelled))
      | .created | .waiting | .finished => s.answering .pending
  | .sleeping deadline => if deadline ≤ s.now then s.answering .unit else none
  | .joining .. => none
  | .client code =>
    let (memory, action) := client.resume code a s
    let s := { s with client := memory }
    match action with
    | .call c next => s.continuing [.call c, .client next]
    | .attempt c next => s.continuing [.call c, .guard, .client next]
    | .finish a => s.answering a
    | .panic p => s.raising p

/-- Unwind a frame that the call above it panicked through. -/
def unwind (p : Panic) : Frame V κ → Option (Effect V κ σ)
  | .guard => s.answering (.panicked p)
  | .threadEnd => s.answering .unit
  | .deliver r tasks first reply => s.continuing [.deliver r tasks (some (first.getD p)) reply]
  | .sweep _ _ _ drained => (s.dropTasks drained).raising p
  | .merging merge =>
    match s.results[merge]? with
    | some ⟨cell, .merge m⟩ => (s.set merge ⟨cell, .merge { m with lock := .poisoned }⟩).raising p
    | _ => none
  | _ => s.raising p

/-- One step of a frame; none if it has to wait. -/
def resume (client : Client V κ σ) (result : Return V) (f : Frame V κ) : Option (Effect V κ σ) :=
  match result with
  | .ok a => s.proceed client a f
  | .error p => s.unwind p f

end Store

end Quorate
