import Descramble.Evaluation.Action
import Descramble.Text.Search
import Descramble.Value.Section

/-!
# Methods of strings

A string is a sequence of characters, and positions count characters.
-/

namespace Descramble

/-- The pieces of a text between separators. An empty separator stands between all characters. -/
def splitText (separator t : String) : List String :=
  if separator.isEmpty then t.toList.map String.singleton
  else (pieces separator.toList t.toList).map String.ofList

/-- The first place of a text inside another that is not before `start`. -/
def findText? (needle t : List Char) (start : Nat) : Option Nat :=
  occurrence? needle start (t.drop start)

namespace Action

def makeTexts (texts : List String) : Action Value :=
  makeList (texts.map .text)

/-- What replaces an occurrence: a function is asked for it, anything else is it. -/
def replacement (pattern : String) (place : Nat) (t : String) (v : Value) : Action String := do
  if ← read (·.isFunction v) then
    let found := [.text pattern, .number (.ofNat place), .text t]
    let answer ← call v .undefined found
    read (·.textOf answer)
  else read (·.textOf v)

/-- Replaces the first occurrence of a text in another. -/
def replaceText (pattern t : String) (substitute : Value) : Action Value := do
  let cs := t.toList
  match findText? pattern.toList cs 0 with
  | none => return .text t
  | some place =>
    let middle ← replacement pattern place t substitute
    let before := String.ofList (cs.take place)
    let after := String.ofList (cs.drop (place + pattern.length))
    return .text (before ++ middle ++ after)

end Action

open Descramble.Action

/-- Runs a method on a text. -/
def TextMethod.run (m : TextMethod) (t : String) (args : List Value) : Action Value := do
  let first := argument args 0
  let second := argument args 1
  let cs := t.toList
  match m with
  | .split =>
    let found ← match first with
      | .undefined => pure [t]
      | _ => read fun s => splitText (s.textOf first) t
    match second with
    | .undefined => makeTexts found
    | _ => makeTexts (found.take (← read (·.numberOf second)).toUInt32.toNat)
  | .charAt =>
    match (← read (·.offsetOf first)).index? cs.length with
    | some i => return .text (String.ofList (cs[i]?.toList))
    | none => return .text ""
  | .charCodeAt =>
    match (← read (·.offsetOf first)).index? cs.length with
    | some i => return .number ((cs[i]?.map fun c => .ofNat c.toNat).getD .nan)
    | none => return .number .nan
  | .indexOf =>
    let needle ← read (·.textOf first)
    let start := (← read (·.offsetOf second)).clampTo cs.length
    return .number (((findText? needle.toList cs start).map .ofNat).getD (.ofInt (-1)))
  | .slice =>
    let start ← read (·.offsetOf first)
    return .text (String.ofList (start.slice (← read (·.stopOf second)) cs))
  | .substring =>
    let start ← read (·.offsetOf first)
    return .text (String.ofList (start.between (← read (·.stopOf second)) cs))
  | .substr =>
    let start ← read (·.offsetOf first)
    return .text (String.ofList (start.run (← read (·.stopOf second)) cs))
  | .concat => return .text (t ++ String.join (← read fun s => args.map s.textOf))
  | .replace => replaceText (← read (·.textOf first)) t second

end Descramble
