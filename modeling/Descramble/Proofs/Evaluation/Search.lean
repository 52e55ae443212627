import Descramble.Proofs.Evaluation.Method
import Descramble.Proofs.Text.Search

/-!
# Methods that search a string

Splitting a string, replacing in it and asking where another stands in it are one search: they go by
the first place of the other string, counted in characters, and by nothing where there is none. A
string that is split and joined with the same separator is the string again.

Main statement: `Store.search_laws`.
-/

namespace Descramble

open Descramble.Action

/-- A place as a script sees it: its number, or -1 where there is none. -/
def placeValue (place : Option Nat) : Value :=
  .number ((place.map .ofNat).getD (.ofInt (-1)))

/-- What stands before a place of a text, or the text where there is no place. -/
def textBefore (t : String) (place : Option Nat) : String :=
  place.elim t fun i => String.ofList (t.toList.take i)

/-- A text with `new` in place of the `length` characters from a place on, if there is a place. -/
def textWith (t : String) (place : Option Nat) (length : Nat) (new : String) : String :=
  place.elim t fun i =>
    String.ofList (t.toList.take i) ++ new ++ String.ofList (t.toList.drop (i + length))

/-! ## The pieces of a text -/

/-- Texts made of lists of characters have those characters. -/
theorem map_toList_map_ofList (texts : List (List Char)) :
    (texts.map String.ofList).map String.toList = texts := by
  have hid : String.toList ∘ String.ofList = id := funext fun _ => String.toList_ofList
  rw [List.map_map, hid, List.map_id]

/-- Characters one after the other are the text that they make. -/
theorem joined_singletons (cs : List Char) :
    joined "" (cs.map String.singleton) = String.ofList cs := by
  have hsingle : String.toList ∘ String.singleton = fun c => [c] := funext String.toList_singleton
  apply String.toList_injective
  rw [joined_eq_intercalate, String.toList_intercalate, List.map_map, hsingle, String.toList_empty,
    String.toList_ofList]
  exact intercalate_nil_singletons cs

/-- Joining what splitting has left gives the text back, whatever the separator is. -/
theorem joined_splitText (separator t : String) : joined separator (splitText separator t) = t := by
  unfold splitText
  -- an empty separator cuts between any two characters
  by_cases hempty : separator.isEmpty = true
  · rw [if_pos hempty, String.isEmpty_iff.mp hempty, joined_singletons, String.ofList_toList]
  · apply String.toList_injective
    rw [if_neg hempty, joined_eq_intercalate, String.toList_intercalate, map_toList_map_ofList]
    exact intercalate_pieces separator.toList t.toList

/-- Separators do not overlap: the second one begins behind the first. -/
example : splitText "aa" "aaab" = ["", "ab"] ∧ joined "aa" ["", "ab"] = "aaab" := by
  decide +kernel

/-- A separator that is not empty cuts a text where it stands. -/
theorem splitText_of_ne_empty {separator : String} (h : separator ≠ "") (t : String) :
    splitText separator t = (pieces separator.toList t.toList).map String.ofList := by
  unfold splitText
  rw [if_neg fun hempty => h (String.isEmpty_iff.mp hempty)]

/-- A separator that is not empty has a character. -/
theorem toList_ne_nil {separator : String} (h : separator ≠ "") : separator.toList ≠ [] :=
  fun hnil => h (String.toList_eq_nil_iff.mp hnil)

/-- No separator is left in a piece. -/
theorem not_isInfix_of_mem_splitText {separator t piece : String} (h : separator ≠ "")
    (hpiece : piece ∈ splitText separator t) : ¬ separator.toList <:+: piece.toList := by
  rw [splitText_of_ne_empty h] at hpiece
  obtain ⟨cs, hcs, rfl⟩ := List.mem_map.mp hpiece
  rw [String.toList_ofList]
  exact not_isInfix_of_mem_pieces (toList_ne_nil h) hcs

/-- The first piece is what stands before the first separator. -/
theorem head?_splitText {separator : String} (h : separator ≠ "") (t : String) :
    (splitText separator t).head? =
      some (textBefore t (occurrence? separator.toList 0 t.toList)) := by
  rw [splitText_of_ne_empty h, List.head?_map, head?_pieces (toList_ne_nil h), Option.map_some]
  -- without a separator the one piece is the whole text
  cases occurrence? separator.toList 0 t.toList with
  | none => exact congrArg some String.ofList_toList
  | some i => rfl

/-! ## The methods -/

namespace Action

variable (t separator : String) (s : Store)

/-- The method that asks for a place begins its search at its second argument, moved into the text.
    -/
theorem runNative_indexOf (more : List Value) :
    runNative (.text .indexOf) (.text t) (.text separator :: more) s =
      .done (.ok (placeValue (findText? separator.toList t.toList
        ((s.offsetOf (argument more 0)).clampTo t.toList.length)))) s :=
  rfl

/-- The method that splits makes an array of the pieces. -/
theorem runNative_split :
    runNative (.text .split) (.text t) [.text separator] s =
      .done (.ok (.object ⟨s.objects.size⟩))
        (s.addObject (.list ((splitText separator t).map .text).toArray)).2 :=
  rfl

/-- The method that replaces puts the new text at the first place. -/
theorem runNative_replace (new : String) :
    runNative (.text .replace) (.text t) [.text separator, .text new] s =
      .done (.ok (.text (textWith t (findText? separator.toList t.toList 0) separator.length new)))
        s := by
  have hrun : runNative (.text .replace) (.text t) [.text separator, .text new] s =
      replaceText separator t (.text new) s := rfl
  rw [hrun]
  unfold replaceText
  -- without a place the text is left as it is
  cases findText? separator.toList t.toList 0 <;> rfl

/-- Joining an array of texts joins the texts. -/
theorem runNative_join {ref : ObjectRef} {texts : List String}
    (h : s.items? (.object ref) = some (texts.map .text).toArray) :
    runNative (.list .join) (.object ref) [.text separator] s =
      .done (.ok (.text (joined separator texts))) s := by
  have hrun : ListMethod.join.run ref (texts.map .text) [.text separator] s =
      .done (.ok (.text (s.join ref (texts.map .text).toArray separator))) s := rfl
  -- a text as an item is written as itself
  have hjoin : s.join ref (texts.map .text).toArray separator = joined separator texts := by
    unfold Store.join
    rw [List.toList_toArray, List.map_map]
    exact congrArg (joined separator) (List.map_id texts)
  rw [runNative_list h, List.toList_toArray, hrun, hjoin]

end Action

namespace Store

/-- What the methods of a text come to that search it for a separator, where `place` is the first
    place of the separator and `texts` are the pieces between the places where it is cut. -/
structure SearchLaws (s : Store) (t separator : String) (place : Option Nat)
    (texts : List String) : Prop where
  finds : Finds separator.toList t.toList 0 place
  indexOf : runNative (.text .indexOf) (.text t) [.text separator] s =
    .done (.ok (placeValue place)) s
  replace : ∀ new : String, runNative (.text .replace) (.text t) [.text separator, .text new] s =
    .done (.ok (.text (textWith t place separator.length new))) s
  split : ∃ made s', runNative (.text .split) (.text t) [.text separator] s =
      .done (.ok (.object made)) s' ∧
    s'.items? (.object made) = some (texts.map .text).toArray ∧
    runNative (.list .join) (.object made) [.text separator] s' = .done (.ok (.text t)) s'
  not_isInfix : separator ≠ "" → ∀ piece ∈ texts, ¬ separator.toList <:+: piece.toList
  head? : separator ≠ "" → texts.head? = some (textBefore t place)

/-- The methods of a text that search it agree on where a separator stands first, and joining undoes
    splitting. A search may also begin at a position, moved into the text first, and finds the first
    place from there on. -/
theorem search_laws (s : Store) (t separator : String) :
    (∃ place texts, s.SearchLaws t separator place texts) ∧
    ∀ more : List Value, ∃ place, Finds separator.toList t.toList
        ((s.offsetOf (argument more 0)).clampTo t.toList.length) place ∧
      runNative (.text .indexOf) (.text t) (.text separator :: more) s =
        .done (.ok (placeValue place)) s := by
  constructor
  -- all four go by one search from the start
  · have hfind : findText? separator.toList t.toList 0 = occurrence? separator.toList 0 t.toList :=
      rfl
    -- without a position the search begins at the start of the text
    have hstart : (s.offsetOf (argument [] 0)).clampTo t.toList.length = 0 := Nat.zero_min _
    have hmade := s.items?_addObject_list ((splitText separator t).map .text)
    refine ⟨occurrence? separator.toList 0 t.toList, splitText separator t, ?_⟩
    exact {
      finds := finds_occurrence? (Nat.zero_le _)
      indexOf := by rw [runNative_indexOf, hstart, hfind]
      replace := fun new => by rw [runNative_replace, hfind]
      split := by
        refine ⟨_, _, runNative_split t separator s, hmade, ?_⟩
        rw [runNative_join separator _ hmade, joined_splitText]
      not_isInfix := fun h piece hpiece => not_isInfix_of_mem_splitText h hpiece
      head? := fun h => head?_splitText h t }
  · intro more
    exact ⟨_, finds_occurrence? (Offset.clampTo_le _ _), runNative_indexOf t separator s more⟩

end Store

end Descramble
