import Quorate.Result.Machine

/-!
Threads that share a store. Every thread may take the next step; the theory of results quantifies
over that choice. A run makes it in one way: the youngest thread that can step goes first, and time
passes only when no thread can.
-/

set_option autoImplicit false

namespace Quorate

variable {V κ σ : Type}

/-- A running call: what its topmost frame goes on with, and its frames. -/
structure Thread (V κ : Type) where
  result : Return V
  frames : List (Frame V κ)

namespace Thread

def ofCall (c : Call V κ) : Thread V κ := ⟨.ok .unit, [.call c]⟩

def isFinished (t : Thread V κ) : Bool := t.frames.isEmpty

/-- The instant at which a thread that has to wait gives up waiting. -/
def deadline? (t : Thread V κ) : Option Nat :=
  match t.frames with
  | .wait _ _ deadline _ :: _ => deadline
  | .polling _ deadline :: _ | .sleeping deadline :: _ | .joining _ deadline :: _ => some deadline
  | _ => none

end Thread

structure System (V κ σ : Type) where
  store : Store V κ σ
  threads : List (Thread V κ)

namespace System

def start (client : σ) (c : Call V κ) : System V κ σ := ⟨.empty client, [.ofCall c]⟩

/-- Make another call on the first thread. -/
def restart (s : System V κ σ) (c : Call V κ) : System V κ σ :=
  { s with threads := s.threads.set 0 (.ofCall c) }

/-- The step of thread `t`; none if it has ended or has to wait. -/
def step (client : Client V κ σ) (s : System V κ σ) (t : Nat) : Option (System V κ σ) :=
  match s.threads[t]? with
  | none => none
  | some ⟨_, []⟩ => none
  | some ⟨.ok _, .call (.fork c) :: frames⟩ =>
    let threads := s.threads.set t ⟨.ok (.thread s.threads.length), frames⟩
    some { s with threads := threads ++ [.ofCall c] }
  | some ⟨.ok _, .joining other deadline :: frames⟩ =>
    let resumed (a : Answer V) : Option (System V κ σ) :=
      some { s with threads := s.threads.set t ⟨.ok a, frames⟩ }
    match s.threads[other]? with
    | some ⟨.ok a, []⟩ => resumed a
    | some ⟨.error p, []⟩ => resumed (.panicked p)
    | _ => if deadline ≤ s.store.now then resumed .pending else none
  | some ⟨result, frame :: frames⟩ =>
    (s.store.resume client result frame).map fun e =>
      ⟨e.store, s.threads.set t ⟨e.result, e.frames ++ frames⟩⟩

/-- The step of the youngest thread that can step. -/
def next? (client : Client V κ σ) (s : System V κ σ) : Option (System V κ σ) :=
  (List.range s.threads.length).reverse.findSome? (s.step client)

/-- Let time pass until the first thread gives up waiting. -/
def advance? (s : System V κ σ) : Option (System V κ σ) :=
  let ahead := (s.threads.filterMap Thread.deadline?).filter (s.store.now < ·)
  ahead.min?.map fun now => { s with store := { s.store with now } }

/-- Run until the first thread has ended and no other thread can step, for at most `fuel` steps. -/
def run (client : Client V κ σ) : Nat → System V κ σ → System V κ σ
  | 0, s => s
  | fuel + 1, s =>
    match s.next? client with
    | some s => run client fuel s
    | none =>
      if (s.threads.head?.map Thread.isFinished).getD true then s
      else match s.advance? with
        | some s => run client fuel s
        | none => s

/-- What the first thread ended with, if it has ended. -/
def result? (s : System V κ σ) : Option (Return V) :=
  match s.threads with
  | ⟨result, []⟩ :: _ => some result
  | _ => none

end System

end Quorate
