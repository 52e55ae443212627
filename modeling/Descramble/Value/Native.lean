/-!
# Native functions

The functions that scripts find ready-made: methods of strings, of arrays and of functions, and a
few global ones. Each has a label by which error messages call it.
-/

namespace Descramble

inductive TextMethod where
  | split | charAt | charCodeAt | indexOf | slice | substring | substr | concat | replace
deriving DecidableEq

inductive ListMethod where
  | push | pop | shift | unshift | splice | reverse | slice | join | indexOf | concat | forEach
  | map
deriving DecidableEq

inductive MathFunction where
  | floor | abs | min | max | pow | round | ceil
deriving DecidableEq

inductive Native where
  | text (method : TextMethod)
  | list (method : ListMethod)
  | toText
  | call
  | apply
  | textOf
  | fromCharCode
  | math (f : MathFunction)
  | parseInt
  | isNaN
  | isArray
  | decodeComponent
  | encodeComponent
deriving DecidableEq

namespace Native

/-- The label of a native function in messages. -/
def label : Native → String
  | .text .split => "StrSplit"
  | .text .charAt => "StrCharAt"
  | .text .charCodeAt => "StrCharCodeAt"
  | .text .indexOf => "StrIndexOf"
  | .text .slice => "StrSlice"
  | .text .substring => "StrSubstring"
  | .text .substr => "StrSubstr"
  | .text .concat => "StrConcat"
  | .text .replace => "StrReplace"
  | .list .push => "ArrPush"
  | .list .pop => "ArrPop"
  | .list .shift => "ArrShift"
  | .list .unshift => "ArrUnshift"
  | .list .splice => "ArrSplice"
  | .list .reverse => "ArrReverse"
  | .list .slice => "ArrSlice"
  | .list .join => "ArrJoin"
  | .list .indexOf => "ArrIndexOf"
  | .list .concat => "ArrConcat"
  | .list .forEach => "ArrForEach"
  | .list .map => "ArrMap"
  | .toText => "ToString"
  | .call => "FunCall"
  | .apply => "FunApply"
  | .textOf => "StringCtor"
  | .fromCharCode => "FromCharCode"
  | .math .floor => "MathFloor"
  | .math .abs => "MathAbs"
  | .math .min => "MathMin"
  | .math .max => "MathMax"
  | .math .pow => "MathPow"
  | .math .round => "MathRound"
  | .math .ceil => "MathCeil"
  | .parseInt => "ParseInt"
  | .isNaN => "IsNaN"
  | .isArray => "IsArray"
  | .decodeComponent => "DecodeUriComponent"
  | .encodeComponent => "EncodeUriComponent"

/-- The method that strings have under a name. -/
def textMethod? : String → Option Native
  | "split" => some (.text .split)
  | "charAt" => some (.text .charAt)
  | "charCodeAt" => some (.text .charCodeAt)
  | "indexOf" => some (.text .indexOf)
  | "slice" => some (.text .slice)
  | "substring" => some (.text .substring)
  | "substr" => some (.text .substr)
  | "concat" => some (.text .concat)
  | "replace" => some (.text .replace)
  | "toString" => some .toText
  | _ => none

/-- The method that arrays have under a name. -/
def listMethod? : String → Option Native
  | "push" => some (.list .push)
  | "pop" => some (.list .pop)
  | "shift" => some (.list .shift)
  | "unshift" => some (.list .unshift)
  | "splice" => some (.list .splice)
  | "reverse" => some (.list .reverse)
  | "slice" => some (.list .slice)
  | "join" => some (.list .join)
  | "indexOf" => some (.list .indexOf)
  | "concat" => some (.list .concat)
  | "forEach" => some (.list .forEach)
  | "map" => some (.list .map)
  | "toString" => some .toText
  | _ => none

/-- The method that functions have under a name. -/
def functionMethod? : String → Option Native
  | "call" => some .call
  | "apply" => some .apply
  | "toString" => some .toText
  | _ => none

end Native

end Descramble
