import Descramble.Location
import Descramble.Proofs.Text.Search

/-!
# The parts of an address put together

Cutting an address loses nothing: its parts stand in it one after the other, and each of them ends
where the mark of a later one begins. Only a path that is empty shows, since it counts as `/`.

Main statement: `ofUrl_spells`.
-/

namespace Descramble.Location

/-- Whether the parts of a location are those of an address with `path` between the host and the
    rest. -/
structure Spells (l : Location) (url path : String) : Prop where
  href : l.href = url
  /-- The scheme ends at the first `://`. -/
  protocol : ∃ scheme : String, l.protocol = scheme ++ ":" ∧
    ¬ "://".toList <:+: scheme.toList
  origin : l.origin = l.protocol ++ "//" ++ l.host
  whole : url = l.origin ++ path ++ l.search ++ l.hash
  pathname : l.pathname = if path = "" then "/" else path
  /-- The path name stands in the address unless the path is empty. -/
  whole_pathname : url = l.origin ++ l.pathname ++ l.search ++ l.hash ↔ path ≠ ""
  whole_no_path : url = l.origin ++ l.search ++ l.hash ↔ path = ""
  host_mem : ∀ c ∈ l.host.toList, c ≠ '/' ∧ c ≠ '?' ∧ c ≠ '#'
  path_head : path = "" ∨ path.toList.head? = some '/'
  path_mem : ∀ c ∈ path.toList, c ≠ '?' ∧ c ≠ '#'
  search_head : l.search = "" ∨ l.search.toList.head? = some '?'
  search_mem : ∀ c ∈ l.search.toList, c ≠ '#'
  hash_head : l.hash = "" ∨ l.hash.toList.head? = some '#'
  /-- The port follows the last colon of the host, if it has one. -/
  port : (l.host = l.hostname ∧ l.port = "" ∧ ':' ∉ l.host.toList) ∨
    (l.host = l.hostname ++ ":" ++ l.port ∧ ':' ∉ l.port.toList)

/-! ## One cut -/

/-- The characters of a host. -/
def inHost (c : Char) : Bool :=
  c != '/' && c != '?' && c != '#'

/-- What follows a host up to the other marks is empty or begins with the slash that ends the
    host. -/
theorem path_eq_nil_or (cs : List Char) :
    let path := ((cs.dropWhile inHost).takeWhile (· != '#')).takeWhile (· != '?')
    path = [] ∨ path.head? = some '/' := by
  have hstop := List.head?_dropWhile_not inHost cs
  cases h : cs.dropWhile inHost with
  | nil => exact .inl rfl
  | cons c rest =>
    rw [h] at hstop
    -- the mark that ended the host is the slash, or ends the path at once
    have hmark : c = '/' ∨ c = '?' ∨ c = '#' := by
      simpa [inHost, Decidable.or_iff_not_imp_left] using hstop
    rcases hmark with rfl | rfl | rfl
    · exact .inr rfl
    · exact .inl rfl
    · exact .inl rfl

/-- A host is cut at its last colon. -/
theorem splitPort_eq (host : List Char) :
    (splitPort host = (host, []) ∧ ':' ∉ host) ∨
      ∃ name port, splitPort host = (name, port) ∧ host = name ++ ':' :: port ∧ ':' ∉ port := by
  -- from the back, the port comes first and the colon ends it
  have hback := List.takeWhile_append_dropWhile (p := (· != ':')) (l := host.reverse)
  have hport : ':' ∉ (host.reverse.takeWhile (· != ':')).reverse := by
    intro h
    exact ne_of_mem_takeWhile (List.mem_reverse.mp h) rfl
  cases hname : host.reverse.dropWhile (· != ':') with
  | nil =>
    left
    rw [hname, List.append_nil] at hback
    rw [hback, List.reverse_reverse] at hport
    refine ⟨?_, hport⟩
    unfold splitPort
    simp [hback]
  | cons c rest =>
    right
    have hcolon : c = ':' := by
      have := dropWhile_ne_eq_nil_or ':' host.reverse
      simpa [hname] using this
    subst hcolon
    generalize hp : host.reverse.takeWhile (· != ':') = port at hback hport
    have hhost : host = rest.reverse ++ ':' :: port.reverse := by
      rw [← List.reverse_reverse host, ← hback, hname]
      simp
    refine ⟨rest.reverse, port.reverse, ?_, hhost, hport⟩
    have hlength : host.length = rest.length + 1 + port.length := by
      rw [hhost]
      simp
      omega
    unfold splitPort
    simp only [hp, List.length_reverse]
    rw [if_neg (by omega), show host.length - port.length - 1 = rest.reverse.length by simp; omega]
    conv => lhs; rw [hhost]
    rw [List.take_left]

/-! ## All cuts -/

/-- A path that counts as `/` where it is empty shows in the whole just by that. -/
theorem whole_iff {url origin path pathname search hash : String}
    (hwhole : url = origin ++ path ++ search ++ hash)
    (hpathname : pathname = if path = "" then "/" else path) :
    (url = origin ++ pathname ++ search ++ hash ↔ path ≠ "") ∧
      (url = origin ++ search ++ hash ↔ path = "") := by
  -- the parts around the path are the same on both sides
  have hcancel (other : String) :
      origin ++ path ++ search ++ hash = origin ++ other ++ search ++ hash ↔ path = other := by
    simp [← String.toList_inj]
  have hnone := hcancel ""
  rw [String.append_empty] at hnone
  rw [hwhole, hcancel, hnone, hpathname]
  -- so all depends on whether the path is empty
  by_cases hempty : path = "" <;> simp [hempty]

/-- The parts of an address that are cut off one after the other, as lists of characters. -/
theorem exists_parts {url : String} (h : "://".toList <:+: url.toList) :
    ∃ scheme host path search hash : List Char,
      url.toList = scheme ++ "://".toList ++ host ++ path ++ search ++ hash ∧
      ofUrl url =
        { hash := String.ofList hash
          host := String.ofList host
          hostname := String.ofList (splitPort host).1
          href := url
          origin := String.ofList (scheme ++ [':']) ++ "//" ++ String.ofList host
          password := ""
          pathname := if path.isEmpty then "/" else String.ofList path
          port := String.ofList (splitPort host).2
          protocol := String.ofList (scheme ++ [':'])
          search := String.ofList search
          username := "" } ∧
      ¬ "://".toList <:+: scheme ∧
      (∀ c ∈ host, c ≠ '/' ∧ c ≠ '?' ∧ c ≠ '#') ∧
      (path = [] ∨ path.head? = some '/') ∧ (∀ c ∈ path, c ≠ '?' ∧ c ≠ '#') ∧
      (search = [] ∨ search.head? = some '?') ∧ (∀ c ∈ search, c ≠ '#') ∧
      (hash = [] ∨ hash.head? = some '#') := by
  cases hcut : cutAt? "://".toList url.toList with
  | none => exact absurd h (cutAt?_eq_none hcut)
  | some cut =>
    obtain ⟨scheme, rest⟩ := cut
    have hurl : url.toList = scheme ++ "://".toList ++ rest := (cutAt?_eq_some hcut).1
    -- what the cuts leave, in their order
    let tail := rest.dropWhile inHost
    let front := tail.takeWhile (· != '#')
    have hrest : rest = rest.takeWhile inHost ++ tail := List.takeWhile_append_dropWhile.symm
    have htail : tail = front ++ tail.dropWhile (· != '#') :=
      List.takeWhile_append_dropWhile.symm
    have hfront : front = front.takeWhile (· != '?') ++ front.dropWhile (· != '?') :=
      List.takeWhile_append_dropWhile.symm
    refine ⟨scheme, rest.takeWhile inHost, front.takeWhile (· != '?'),
      front.dropWhile (· != '?'), tail.dropWhile (· != '#'), ?_, ?_,
      not_isInfix_of_cutAt? (by decide) hcut, ?_, path_eq_nil_or rest, ?_,
      dropWhile_ne_eq_nil_or '?' front, ?_, dropWhile_ne_eq_nil_or '#' tail⟩
    · calc url.toList = scheme ++ "://".toList ++ (rest.takeWhile inHost ++
            (front.takeWhile (· != '?') ++ front.dropWhile (· != '?') ++
              tail.dropWhile (· != '#'))) := by rw [← hfront, ← htail, ← hrest, hurl]
        _ = _ := by simp only [List.append_assoc]
    · simp only [ofUrl, hcut]
      rfl
    -- up to the mark that ends the host there are none of the three
    · intro c hc
      have hin : inHost c = true := List.all_eq_true.mp List.all_takeWhile c hc
      simpa [inHost, and_assoc] using hin
    · intro c hc
      exact ⟨ne_of_mem_takeWhile hc,
        ne_of_mem_takeWhile ((List.takeWhile_sublist _).subset hc)⟩
    · intro c hc
      exact ne_of_mem_takeWhile ((List.dropWhile_sublist _).subset hc)

/-- The parts of an address are those of the address that they are cut from. -/
theorem ofUrl_spells (url : String) (h : "://".toList <:+: url.toList) :
    ∃ path, (ofUrl url).Spells url path := by
  obtain ⟨scheme, host, path, search, hash, hurl, hparts, hscheme, hhost, hslash, hpath, hsearch,
    hmem, hhash⟩ := exists_parts h
  have hwhole : url = String.ofList (scheme ++ [':']) ++ "//" ++ String.ofList host ++
      String.ofList path ++ String.ofList search ++ String.ofList hash := by
    simp [← String.toList_inj, hurl]
  have hpathname : (if path.isEmpty then "/" else String.ofList path) =
      if String.ofList path = "" then "/" else String.ofList path := by
    simp [← String.toList_inj]
  -- a part is empty or begins with its mark, as text and as characters
  have hempty {cs : List Char} {c : Char} (hcs : cs = [] ∨ cs.head? = some c) :
      String.ofList cs = "" ∨ (String.ofList cs).toList.head? = some c := by
    simpa using hcs
  obtain ⟨hreads, hreads_none⟩ := whole_iff hwhole hpathname
  rw [hparts]
  refine ⟨String.ofList path, rfl, ⟨String.ofList scheme, ?_, ?_⟩, rfl, hwhole, hpathname, hreads,
    hreads_none, ?_, hempty hslash, ?_, hempty hsearch, ?_, hempty hhash, ?_⟩
  · simp
  · simpa using hscheme
  · simpa using hhost
  · simpa using hpath
  · simpa using hmem
  -- without a colon the host is all name, and otherwise the last one ends the name
  · rcases splitPort_eq host with ⟨hport, hcolon⟩ | ⟨name, port, hport, rfl, hcolon⟩
    · exact .inl (by simpa [hport] using hcolon)
    · exact .inr (by simpa [hport, ← String.toList_inj] using hcolon)

/-- An address with no path, two colons in its host, and marks behind the first `#` that cut nothing
    any more. -/
theorem ofUrl_spells_noPath :
    let url := "http://h:1:80?a=/b#c?d://#"
    "://".toList <:+: url.toList ∧ (∃ path, (ofUrl url).Spells url path) ∧
      (ofUrl url).origin = "http://h:1:80" ∧ (ofUrl url).hostname = "h:1" ∧
      (ofUrl url).pathname = "/" ∧ (ofUrl url).search = "?a=/b" ∧
      (ofUrl url).hash = "#c?d://#" := by
  intro url
  have hmark : "://".toList <:+: url.toList :=
    ⟨"http".toList, "h:1:80?a=/b#c?d://#".toList, by decide⟩
  have hparts : ofUrl url =
      { hash := "#c?d://#", host := "h:1:80", hostname := "h:1", href := url,
        origin := "http://h:1:80", password := "", pathname := "/", port := "80",
        protocol := "http:", search := "?a=/b", username := "" } := by
    decide +kernel
  refine ⟨hmark, ofUrl_spells url hmark, ?_⟩
  rw [hparts]
  exact ⟨rfl, rfl, rfl, rfl, rfl⟩

end Descramble.Location
