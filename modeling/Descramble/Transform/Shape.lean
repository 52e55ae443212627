import Descramble.Pattern.Basic

/-!
# The shapes of transforms

A player script defines two transforms, and each shows itself by the shape of a statement. The
shapes pin down only what scrambling leaves alone: numbers of parameters, places of statements and
operators. They never ask for a name.
-/

namespace Descramble.Shape

open Pattern

def ident : Pattern :=
  ofKind .identifier

/-- An array literal of one identifier. -/
def singleIdentArray : Pattern :=
  node .arrayExpression [(.elements, .sequence [ident])]

/-- A list of `count` items of any kind. -/
def arity (count : Nat) : Pattern :=
  .sequence (List.replicate count present)

/-- A function with `count` parameters as a declaration, as an assigned function expression, or as
    the initial value in a declaration of any kind. -/
def function (count : Nat) : Pattern :=
  let value := node .functionExpression [(.params, arity count)]
  .anyOf [
    node .functionDeclaration [(.params, arity count)],
    node .expressionStatement [
      (.expression, node .assignmentExpression [
        (.operator, text "="), (.left, ident), (.right, value)])],
    node .variableDeclaration [
      (.declarations, .contains [
        node .variableDeclarator [(.id, ident), (.init, value)]])]]

/-- An alias: `var a = [b]` or `a = [b]`. -/
def aliasing : Pattern :=
  .anyOf [
    node .variableDeclaration [
      (.kind, text "var"),
      (.declarations, .contains [
        node .variableDeclarator [(.id, ident), (.init, singleIdentArray)]])],
    node .expressionStatement [
      (.expression, node .assignmentExpression [
        (.left, ident), (.operator, text "="), (.right, singleIdentArray)])]]

/-- A `try` whose handler returns a decoy, `return x[0] + a` or `return x + a`. -/
def decoyGuard : Pattern :=
  let indexed := node .memberExpression [
    (.object, ident), (.computed, flag true), (.property, ofKind .literal), (.optional, flag false)]
  node .tryStatement [
    (.handler, node .catchClause [
      (.body, .sequence [
        node .returnStatement [
          (.argument, node .binaryExpression [
            (.left, .anyOf [indexed, ident]), (.operator, text "+"), (.right, ident)])]])])]

/-- A guarded call: `c && (c = f(decode(c)), g())`, where `f` may take a literal first. -/
def callGuard : Pattern :=
  let decoded := node .callExpression [
    (.callee, ident), (.arguments, .sequence [ident]), (.optional, flag false)]
  node .expressionStatement [
    (.expression, node .logicalExpression [
      (.left, ident),
      (.operator, text "&&"),
      (.right, node .sequenceExpression [
        (.expressions, .sequence [
          node .assignmentExpression [
            (.left, ident),
            (.operator, text "="),
            (.right, node .callExpression [
              (.callee, ident),
              (.arguments, .anyOf [
                .sequence [ofKind .literal, decoded],
                .sequence [decoded]]),
              (.optional, flag false)])],
          node .callExpression [(.callee, .wildcard)]])])])]

end Descramble.Shape
