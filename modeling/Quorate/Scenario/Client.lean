import Quorate.Scenario.Describe
import Quorate.Scenario.Holding

/-!
The operations of a scenario as client code. An operation makes at most one call at a time, and
ends with a reference to its reply.
-/

set_option autoImplicit false

namespace Quorate.Scenario

/-- What a piece of code leaves behind: the bench, and what is done next. -/
abbrev Turn := Bench × Action Value Code

namespace Bench

/-- End an operation with its reply. -/
def reply (b : Bench) (r : Reply) : Turn :=
  ({ b with replies := b.replies ++ [r] }, .finish (.token b.replies.length))

def say (b : Bench) (s : String) : Turn := b.reply (.text s)

def ask (b : Bench) (c : Call Value Code) (next : Code) : Turn := (b, .call c next)

/-- Begin or go on with a script. -/
def script (b : Bench) (label : String) (ops : List Op) (ending : Ending) : Turn :=
  match ops with
  | op :: ops => b.ask (.run (.op op)) (.scripted label ops ending)
  | [] => match ending with
    | .give a => (b, .finish a)
    | .mix spies merging values => b.ask (.run (.mixing spies merging values)) .passing

end Bench

/-- The longest wait for a thread that is surely running. -/
def ever : Duration := .longest

/-- How long `join` waits for a thread. -/
def grace : Duration := .ofMillis 300

namespace Stage

variable (s : Stage)

def bench : Bench := s.client

/-- The handle and the result behind a name. -/
def find? (name : String) : Option (Handle × Item) := do
  let handle ← s.client.names.lookup name
  let x ← s.results[handle.result]?
  some (handle, x)

/-- Go on with the result behind a name. -/
def on (name : String) (f : Handle → Item → Turn) : Turn :=
  match s.find? name with
  | some (handle, x) => f handle x
  | none => s.bench.say "missing"

def changeStub (name : String) (fields : StubChange Op) : Turn :=
  s.on name fun handle x =>
    match x.kind, s.client.stubs.lookup handle.result with
    | .foreign done cancelled, some stub =>
      (s.bench.setStub handle.result (stub.change fields)).ask
        (.claim handle.result (fields.done.getD done) (fields.cancelled.getD cancelled))
        (.replying (.text "ok"))
    | _, _ => s.bench.say "missing"

/-- Run stored callbacks one after another. -/
def fireNext (tasks : List (Task Code)) (count : Nat) : Turn :=
  match tasks with
  | [] => s.bench.reply (.count count)
  | task :: tasks => (s.bench, .attempt (.perform task) (.firing tasks count))

def loseNext (tasks : List (Task Code)) (p : Panic) : Turn :=
  match tasks with
  | [] => (s.bench, .panic p)
  | task :: tasks => s.bench.ask (.discard task) (.losing tasks p)

def forkNext (ops : List Op) (threads : List Nat) : Turn :=
  match ops with
  | op :: ops => s.bench.ask (.fork (.run (.op op))) (.forking ops threads)
  | [] => match threads with
    | [] => s.bench.reply (.all [])
    | t :: threads => s.bench.ask (.join t ever) (.joining threads [])

def build (name : String) (mixer : Option (Mixer Op)) (sources : List String) : Turn :=
  match sources.mapM fun source => s.client.names.lookup source with
  | none => s.bench.say "missing"
  | some handles =>
    match mixer with
    | none => s.bench.reply (.refused (.error (.invalidArgument "MergingResult requires a merger")))
    | some mixer => match mixer.core.merging? with
      | .error f => s.bench.reply (.refused f)
      | .ok merging =>
        let merger : Merger Value Code :=
          if mixer.spies.isEmpty then .plain merging else .code (.mixing mixer.spies merging)
        let merges := s.client.merges ++ [(s.results.length, handles.map Handle.tag)]
        ({ s.client with merges }, .call (.build merger (handles.map Handle.result)) (.merged name))

/-- Begin an operation. -/
def begin : Op → Turn
  | .settable name initial => s.bench.ask (.create .settable) (.created name initial)
  | .countdown name count value => s.bench.ask (.create (.latch count value)) (.created name none)
  | .merge name mixer sources => s.build name mixer sources
  | .stub name fields =>
    s.bench.ask (.create (.foreign (fields.done.getD false) (fields.cancelled.getD false)))
      (.stubbed name fields)
  | .set name fields => s.changeStub name fields
  | .fire name => s.on name fun handle _ =>
    match s.client.stubs.lookup handle.result with
    | none => s.bench.say "missing"
    | some stub =>
      let b := s.bench.setStub handle.result { stub with stored := [] }
      fireNext { s with client := b } stub.stored stub.stored.length
  | .clone name source => s.on source fun handle _ => (s.bench.name name handle.result).say "ok"
  | .drop name =>
    ({ s.client with names := forget s.client.names name } : Bench).reply
      (.flag (s.client.names.lookup name).isSome)
  | .succeed name value => s.on name fun handle x =>
    match x.kind with
    | .settable => s.bench.ask (.complete handle.result (.succeeded value)) .answering
    | _ => s.bench.say "missing"
  | .fail name e => s.on name fun handle x =>
    match x.kind with
    | .settable | .latch _ => s.bench.ask (.complete handle.result (.failed e)) .answering
    | _ => s.bench.say "missing"
  | .producerCancel name => s.on name fun handle x =>
    match x.kind with
    | .settable => s.bench.ask (.complete handle.result .cancelled) .answering
    | _ => s.bench.say "missing"
  | .producerIsDone name => s.on name fun _ x =>
    match x.kind with
    | .settable => s.bench.reply (.flag x.isDone)
    | _ => s.bench.say "missing"
  | .producerDebug name => s.on name fun _ x => s.bench.say ((producerText? x).getD "missing")
  | .inject name fault origin => s.on name fun handle x =>
    match x.kind with
    | .settable => match fault.state? origin with
      | some state => s.bench.ask (.complete handle.result state) (.replying (.flag true))
      | none => s.bench.reply (.flag fault.active)
    | _ => s.bench.say "missing"
  | .countDown name => s.on name fun handle x =>
    match x.kind with
    | .latch _ => s.bench.ask (.countDown handle.result) .answering
    | _ => s.bench.say "missing"
  | .remaining name => s.on name fun _ x =>
    match x.remaining? with
    | some n => s.bench.reply (.count n)
    | none => s.bench.say "missing"
  | .get name => s.on name fun handle x =>
    if x.isDone then s.bench.ask (.get handle.result none) .answering else s.bench.say "would block"
  | .getTimeout name timeout => s.on name fun handle _ =>
    s.bench.ask (.get handle.result (some timeout)) .answering
  | .cancel name => s.on name fun handle _ => s.bench.ask (.cancel handle.result) .answering
  | .isDone name => s.on name fun _ x => s.bench.reply (.flag x.isDone)
  | .isCancelled name => s.on name fun _ x => s.bench.reply (.flag x.isCancelled)
  | .size name => s.on name fun _ x =>
    match x.size? with
    | some n => s.bench.reply (.count n)
    | none => s.bench.say "missing"
  | .completed name => s.on name fun _ x =>
    match x.completed? with
    | some n => s.bench.reply (.count n)
    | none => s.bench.say "missing"
  | .debug name => s.on name fun _ x => s.bench.say (handleText x)
  | .on name label script placement => s.on name fun handle _ =>
    s.bench.ask
      (.register handle.result ⟨.client (.callback label script placement), placement.executor⟩)
      (.replying (.text "ok"))
  | .waiter name label timeout => s.on name fun handle _ =>
    (s.bench.beginReading handle).ask (.fork (.run (.reading handle timeout))) (.forked label)
  | .join label =>
    match s.client.waiters.lookup label with
    | none => s.bench.say "gone"
    | some t => s.bench.ask (.join t grace) (.joined label)
  | .wait name label => s.on name fun handle _ =>
    (s.bench.beginReading handle).ask (.await handle.result) (.awaited label handle)
  | .poll label =>
    match s.client.futures.lookup label with
    | none => s.bench.say "gone"
    | some (handle, f) =>
      ({ s.client with futures := forget s.client.futures label }, .attempt (.poll f)
        (.polled label handle f))
  | .refs name => s.on name fun handle _ => s.bench.reply (.count (s.references handle.tag))
  | .par ops => s.forkNext ops []
  | .panic message => (s.bench, .panic message)
  | .sleep d => s.bench.ask (.sleep d) (.replying (.text "ok"))
  | .unknown => s.bench.say "bad op"

/-- A method of a stub, called by whoever uses it as a result. -/
def serve (r : ResultId) (method : Method Value Code) : Turn :=
  match s.client.stubs.lookup r with
  | none => (s.bench, .panic "no such stub")
  | some stub =>
    match method with
    | .cancel => (s.bench.write (.stub stub.name "cancel"), .finish (.flag stub.cancelReturns))
    | .get => s.bench.script stub.name stub.onGet (.give (.outcome stub.outcome))
    | .register task =>
      let b := s.bench.write (.stub stub.name "on_completion")
      match stub.keeping with
      | .store => (b.setStub r { stub with stored := stub.stored ++ [task] }, .finish .unit)
      | .fire => b.ask (.perform task) (.giving .unit)
      | .drop => b.ask (.discard task) (.giving .unit)

def thread? : Placement → Option (Option String)
  | .thread name => some name
  | _ => none

/-- Go on with a piece of code, given the answer it waited for. -/
def resume (a : Answer Value) : Code → Turn
  | .op op => s.begin op
  | .replying r => s.bench.reply r
  | .answering => s.bench.reply (s.bench.replyOf a)
  | .created name initial =>
    match a with
    | .result r =>
      let b := s.bench.name name r
      match initial with
      | none => b.say "ok"
      | some state => b.ask (.complete r state) (.replying (.text "ok"))
    | _ => s.bench.say "missing"
  | .stubbed name fields =>
    match a with
    | .result r => ((s.bench.name name r).setStub r ((Stub.blank name).change fields)).say "ok"
    | _ => s.bench.say "missing"
  | .merged name =>
    match a with
    | .result r => (s.bench.name name r).say "ok"
    | _ => s.bench.say "missing"
  | .forked label =>
    match a with
    | .thread t => ({ s.client with waiters := assign s.client.waiters label t } : Bench).say "ok"
    | _ => s.bench.say "missing"
  | .joined label =>
    match a with
    | .pending | .panicked _ => s.bench.say "blocked"
    | _ =>
      ({ s.client with waiters := forget s.client.waiters label } : Bench).reply (s.bench.replyOf a)
  | .reading handle timeout => (s.bench, .attempt (.get handle.result timeout) (.read handle))
  | .read handle =>
    match a with
    | .panicked p => (s.bench.endReading handle, .panic p)
    | _ => (s.bench.endReading handle, .finish a)
  | .awaited label handle =>
    match a with
    | .future f => (s.bench.keepFuture label handle f).say "ok"
    | _ => s.bench.say "missing"
  | .polled label handle f =>
    match a with
    | .pending => (s.bench.keepFuture label handle f).say "pending"
    | .panicked p => (s.bench.endReading handle, .panic p)
    | _ => (s.bench.endReading handle).reply (s.bench.replyOf a)
  | .firing tasks count =>
    match a with
    | .panicked p => s.loseNext tasks p
    | _ => s.fireNext tasks count
  | .losing tasks p => s.loseNext tasks p
  | .forking ops threads =>
    match a with
    | .thread t => s.forkNext ops (threads ++ [t])
    | _ => s.forkNext ops threads
  | .joining threads replies =>
    let replies := replies ++ [s.bench.replyOf a]
    match threads with
    | [] => s.bench.reply (.all replies)
    | t :: threads => s.bench.ask (.join t ever) (.joining threads replies)
  | .callback label script placement =>
    (s.bench.write (.callback label (thread? placement))).script label script (.give .unit)
  | .script label ops ending => s.bench.script label ops ending
  | .scripted label ops ending =>
    (s.bench.write (.inside label (s.bench.replyOf a))).script label ops ending
  | .mixing [] merging values =>
    match merging values with
    | .ok o => (s.bench, .finish (.outcome o))
    | .error p => (s.bench, .panic p)
  | .mixing (script :: spies) merging values =>
    (s.bench.write (.merge values)).script "merge" script (.mix spies merging values)
  | .serving r method => s.serve r method
  | .giving a => (s.bench, .finish a)
  | .passing => (s.bench, .finish a)

end Stage

def client : Client Value Code Bench where
  resume code a s := Stage.resume s a code
  serve := .serving

end Quorate.Scenario
