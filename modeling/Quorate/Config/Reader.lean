import Quorate.Config.Basic
import Quorate.Json.Record

/-!
Reading a configuration from JSON. Fields may come in any order and unknown ones are skipped; the
voter may be left out. A record may also be a list of its fields in order.
-/

set_option autoImplicit false

namespace Quorate

open Json

namespace Coding

def variants : Variants Coding Coding where
  known := [("hash", .hash), ("bytes", .bytes)]
  bare := .ok
  content b cs := (readNull cs).map fun (_, rest) => (b, rest)

def read : Reader Coding := readVariant variants

end Coding

namespace MergeRule

/-- The threshold and the voter, as far as they were read. -/
structure Draft where
  threshold : Option Nat
  coding : Option Coding

def Draft.finish (d : Draft) : Except Fault MergeRule :=
  (required "threshold" d.threshold).map fun needed => .threshold needed (d.coding.getD .hash)

def fields : Fields Draft MergeRule where
  expected := "struct ThresholdConfig"
  empty := ⟨none, none⟩
  member d name cs :=
    if name = "threshold" then
      (once name d.threshold (readNat "usize") cs).map fun (n, rest) =>
        ({ d with threshold := some n }, rest)
    else if name = "voter" then
      (once name d.coding Coding.read cs).map fun (b, rest) => ({ d with coding := some b }, rest)
    else skipMember d cs
  finish := Draft.finish
  items cs := do
    let (needed, rest) ← item "struct ThresholdConfig with 2 elements" 0 (readNat "usize") cs
    let (coding, rest) ← item? 1 Coding.read rest
    .ok (.threshold needed (coding.getD .hash), rest)

/-- Which rule it is. -/
inductive Name where
  | threshold
  | first

def variants : Variants Name MergeRule where
  known := [("threshold", .threshold), ("first", .first)]
  bare
    | .threshold => .error (.mismatch (.type .unitVariant "newtype variant"))
    | .first => .ok .first
  content
    | .threshold => readRecord fields
    | .first => fun cs => (readNull cs).map fun (_, rest) => (.first, rest)

def read : Reader MergeRule := readVariant variants

end MergeRule

namespace Config

/-- The fields, as far as they were read. -/
structure Draft where
  replicas : Option Nat
  getTimeoutMs : Option Nat
  merger : Option MergeRule

def Draft.finish (d : Draft) : Except Fault Config := do
  let replicas ← required "replicas" d.replicas
  let getTimeoutMs ← required "get_timeout_ms" d.getTimeoutMs
  let merger ← required "merger" d.merger
  .ok ⟨replicas, getTimeoutMs, merger⟩

def fields : Fields Draft Config where
  expected := "struct Config"
  empty := ⟨none, none, none⟩
  member d name cs :=
    if name = "replicas" then
      (once name d.replicas (readNat "usize") cs).map fun (n, rest) =>
        ({ d with replicas := some n }, rest)
    else if name = "get_timeout_ms" then
      (once name d.getTimeoutMs (readNat "u64") cs).map fun (n, rest) =>
        ({ d with getTimeoutMs := some n }, rest)
    else if name = "merger" then
      (once name d.merger MergeRule.read cs).map fun (m, rest) =>
        ({ d with merger := some m }, rest)
    else skipMember d cs
  finish := Draft.finish
  items cs := do
    let expected := "struct Config with 3 elements"
    let (replicas, rest) ← item expected 0 (readNat "usize") cs
    let (getTimeoutMs, rest) ← item expected 1 (readNat "u64") rest
    let (merger, rest) ← item expected 2 MergeRule.read rest
    .ok (⟨replicas, getTimeoutMs, merger⟩, rest)

/-- The configuration that a text holds. -/
def ofJson? (text : String) : Except Fault Config := readAll (readRecord fields) text.toList

end Config

end Quorate
