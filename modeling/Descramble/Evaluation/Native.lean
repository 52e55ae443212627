import Descramble.Evaluation.ListMethod
import Descramble.Evaluation.TextMethod
import Descramble.Number.Radix
import Descramble.Text.Component

/-!
# Running native functions

A native function gets `this` and its arguments like any other. A method of strings accepts whatever
has a text and is no object, a method of arrays only arrays; each names itself when it is called on
something else.
-/

namespace Descramble

/-- The text of a value, in the given base for a whole number and a base other than ten. -/
def Store.toTextIn (s : Store) (v base : Value) : String :=
  match v, base with
  | .number n, .number r =>
    let two := Number.ofNat 2
    let most := Number.ofNat 36
    if !r.lt two && !most.lt r && !r.equals (.ofNat 10) then
      ((r.truncate?.bind fun i => n.toTextIn? i.toNat)).getD (s.textOf v)
    else s.textOf v
  | _, _ => s.textOf v

/-- The character of which a number is the code, by its last 16 bits. -/
def Number.toChar (n : Number) : Char :=
  scalarOf (n.toUInt32.toNat % 2 ^ 16)

/-- Rounds to the nearest whole number, a half upwards. -/
def Number.round (n : Number) : Number :=
  (n.add (.ofRatio false unitsPerOne 2)).floor

/-- Runs a mathematical function on the numbers of its arguments. -/
def MathFunction.run (f : MathFunction) (args : List Number) : Number :=
  let first := args[0]?.getD .nan
  match f with
  | .floor => first.floor
  | .ceil => first.ceil
  | .abs => first.abs
  | .round => first.round
  | .pow => first.pow (args[1]?.getD .nan)
  | .min => args.foldl Number.min (.infinite false)
  | .max => args.foldl Number.max (.infinite true)

namespace Action

/-- The arguments that an array stands for in `apply`. -/
def spreadArguments (v : Value) : Action (List Value) := do
  match v with
  | .undefined | .null => return []
  | _ =>
    match ← read (·.items? v) with
    | some items => return items.toList
    | none => typeError "apply expects an array"

/-- Runs a method of arrays or strings on whatever it was called on. -/
def runMethod (n : Native) (this : Value) (args : List Value) : Action Value := do
  match this with
  | .object ref =>
    match ← read (·.items? this), n with
    | none, _ => typeError (n.label ++ " called on a non-array")
    | some items, .list m => m.run ref items.toList args
    | some _, _ => typeError (n.label ++ " called on an array")
  | .undefined | .null => typeError (n.label ++ " called on " ++ (← read (·.textOf this)))
  | _ =>
    match n with
    | .text m => m.run (← read (·.textOf this)) args
    | _ => typeError (n.label ++ " called on a string")

/-- The text of an array. -/
def listText (ref : ObjectRef) : Action Value := do
  match ← read (·.items? (.object ref)) with
  | some items => return .text (← read (·.join ref items ","))
  | none => typeError (Native.toText.label ++ " called on a non-array")

/-- The text of a value, of a number in the base that is asked for. -/
def toText (this base : Value) : Action Value := do
  match this with
  | .object ref =>
    if ← read (·.isFunction this) then
      return .text (← read (·.textOf this))
    else
      -- an object that is no array has a text too, so the error goes no further
      handle (listText ref) fun
        | .ok t => return t
        | .error _ => return .text (← read (·.textOf this))
  | _ => return .text (← read (·.toTextIn this base))

/-- Runs a native function. -/
def runNative (n : Native) (this : Value) (args : List Value) : Action Value := do
  let first := argument args 0
  match n with
  | .text _ | .list _ => runMethod n this args
  | .toText => toText this first
  | .call => call this first args.tail
  | .apply => call this first (← spreadArguments (argument args 1))
  | .textOf => return .text (← read fun s => (args.head?.map s.textOf).getD "")
  | .fromCharCode =>
    return .text (String.ofList (← read fun s => args.map fun v => (s.numberOf v).toChar))
  | .math f => return .number (f.run (← read fun s => args.map s.numberOf))
  | .parseInt =>
    let base := (← read (·.numberOf (argument args 1))).toUInt32.toNat
    return .number (.readInBase base (← read (·.textOf first)).toList)
  | .isNaN => return .flag (← read (·.numberOf first)).isNaN
  | .isArray => return .flag (← read (·.items? first)).isSome
  | .decodeComponent =>
    match Component.decode? (← read (·.textOf first)) with
    | some t => return .text t
    | none => fail "URIError" "URI malformed"
  | .encodeComponent => return .text (Component.encode (← read (·.textOf first)))

end Action

end Descramble
