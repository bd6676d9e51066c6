import FlashForwarder.Library.TextSearch
import Mathlib.Logic.Function.Basic

/-!
# Composed URIs

`DoParseUri` cuts a URI at the first `://`, what is left at the first `?`, the rest of it at every
`&`, and each part at its first `=`.  It undoes the composition of a URI unless there is no `://` in
front and one further behind.
-/

namespace FlashForwarder

open TextSearch

/-- What `DoParseUri` is given pointers to. -/
structure ParsedUri where
  /-- `*o_prefix` -/
  oPrefix : List Char
  /-- `*o_path` -/
  oPath : List Char
  /-- `*o_params` -/
  oParams : List Char → Option (List Char)

/-- `://` -/
def schemeMark : List Char := [':', '/', '/']

/-- One pass of the loop over the parts. -/
def assignParam (params : List Char → Option (List Char)) (part : List Char) :
    List Char → Option (List Char) :=
  match find ['='] part with
  | some epos => Function.update params (part.take epos) (some (part.drop (epos + 1)))
  | none => params

/-- `DoParseUri` behind the `://`. -/
def parsePath (uriStr : List Char) (out : ParsedUri) : ParsedUri :=
  match find ['?'] uriStr with
  | some pos =>
      let parts := (uriStr.drop (pos + 1)).splitOn '&'
      { out with
        oParams := parts.foldl assignParam out.oParams
        oPath := uriStr.take pos }
  | none => { out with oPath := uriStr }

/-- `DoParseUri` -/
def doParseUri (uri : List Char) (out : ParsedUri) : ParsedUri :=
  match find schemeMark uri with
  | some pos => parsePath (uri.drop (pos + 3)) { out with oPrefix := uri.take pos }
  | none => parsePath uri out

/-! ## Composition -/

/-- The components of a URI, free of the separators that end them. -/
structure UriComponents where
  /-- What stands in front of the `://`, if there is one. -/
  uriPrefix : Option (List Char)
  /-- The path. -/
  path : List Char
  /-- The names and the values of the parameters. -/
  params : List (List Char × List Char)
  prefix_unmarked : ∀ text ∈ uriPrefix, ¬schemeMark <:+: text
  path_unmarked : ¬schemeMark <:+: path
  path_plain : '?' ∉ path
  names_distinct : (params.map Prod.fst).Nodup
  names_plain : ∀ param ∈ params, '=' ∉ param.1 ∧ '&' ∉ param.1
  values_plain : ∀ param ∈ params, '&' ∉ param.2

namespace UriComponents

/-- `name=value` -/
def part (param : List Char × List Char) : List Char := param.1 ++ '=' :: param.2

variable (uri : UriComponents)

/-- The parts joined by `&`. -/
def query : List Char := ['&'].intercalate (uri.params.map part)

/-- What follows the `://`. -/
def tail : List Char := uri.path ++ '?' :: uri.query

/-- The URI. -/
def text : List Char :=
  match uri.uriPrefix with
  | some front => front ++ (schemeMark ++ uri.tail)
  | none => uri.tail

/-- Whatever `o_prefix` and `o_path` hold before, `DoParseUri` finds the components again, and
leaves `o_prefix` alone if there was nothing in front of a `://`. -/
def Recovered : Prop :=
  ∀ oPrefix oPath, doParseUri uri.text ⟨oPrefix, oPath, fun _ => none⟩ =
    ⟨uri.uriPrefix.getD oPrefix, uri.path, fun name => uri.params.lookup name⟩

variable {uri}

/-! ## Parameters -/

theorem assignParam_part {param : List Char × List Char} (plain : '=' ∉ param.1)
    (params : List Char → Option (List Char)) :
    assignParam params (part param) = Function.update params param.1 (some param.2) := by
  rw [assignParam, part, find_letter plain]
  simp

theorem foldl_assignParam {entries : List (List Char × List Char)}
    (distinct : (entries.map Prod.fst).Nodup) (plain : ∀ param ∈ entries, '=' ∉ param.1)
    (params : List Char → Option (List Char)) (name : List Char) :
    (entries.map part).foldl assignParam params name = (entries.lookup name).or (params name) := by
  induction entries generalizing params with
  | nil => simp
  | cons param entries ih =>
      obtain ⟨fresh, distinct⟩ := List.nodup_cons.mp distinct
      obtain ⟨here, later⟩ := List.forall_mem_cons.mp plain
      rw [List.map_cons, List.foldl_cons, assignParam_part here, ih distinct later,
        List.lookup_cons]
      by_cases same : name = param.1
      · subst same
        have absent : entries.lookup param.1 = none := by
          rw [List.lookup_eq_none_iff]
          intro entry member
          simp only [bne_iff_ne, ne_eq]
          rintro same
          exact fresh (same ▸ List.mem_map_of_mem member)
        simp [absent]
      · have other : (name == param.1) = false := by simpa using same
        rw [Function.update_of_ne same, other]

theorem amp_notMem_part {param : List Char × List Char} (member : param ∈ uri.params) :
    '&' ∉ part param := by
  have name := (uri.names_plain param member).2
  have value := uri.values_plain param member
  simp [part, name, value]

/-- The query, cut at every `&`, gives its parameters. -/
theorem foldl_query : (uri.query.splitOn '&').foldl assignParam (fun _ => none) =
    fun name => uri.params.lookup name := by
  cases none : uri.params with
  | nil => simp [query, none, assignParam, find]
  | cons param params =>
      have cut : uri.query.splitOn '&' = uri.params.map part := by
        refine List.splitOn_intercalate '&' ?_ (by simp [none])
        rintro _ member
        obtain ⟨param, listed, rfl⟩ := List.mem_map.mp member
        exact amp_notMem_part listed
      rw [cut, ← none]
      funext name
      rw [foldl_assignParam uri.names_distinct fun param member => (uri.names_plain param member).1]
      simp

theorem oPrefix_parsePath (uriStr : List Char) (out : ParsedUri) :
    (parsePath uriStr out).oPrefix = out.oPrefix := by
  rw [parsePath]
  split <;> rfl

theorem drop_mark (front mark rest : List Char) :
    (front ++ (mark ++ rest)).drop (front.length + mark.length) = rest := by
  rw [← List.append_assoc, List.drop_left' List.length_append]

theorem parsePath_tail (oPrefix oPath : List Char) :
    parsePath uri.tail ⟨oPrefix, oPath, fun _ => none⟩ =
      ⟨oPrefix, uri.path, fun name => uri.params.lookup name⟩ := by
  rw [parsePath, tail, find_letter uri.path_plain]
  dsimp only
  rw [List.take_left, ← foldl_query]
  have behind := drop_mark uri.path ['?'] uri.query
  rw [List.length_singleton, List.singleton_append] at behind
  rw [behind]

/-! ## The mark of the scheme -/

theorem mark_infix_intercalate {parts : List (List Char)} :
    schemeMark <:+: ['&'].intercalate parts ↔ ∃ part ∈ parts, schemeMark <:+: part := by
  induction parts with
  | nil => simp [schemeMark]
  | cons first parts ih =>
      cases parts with
      | nil => simp
      | cons second parts =>
          rw [List.intercalate_cons_cons, List.append_assoc, List.singleton_append,
            infix_append_cons_iff (by decide), ih]
          simp

theorem mark_infix_tail : schemeMark <:+: uri.tail ↔
    ∃ param ∈ uri.params, schemeMark <:+: param.1 ∨ schemeMark <:+: param.2 := by
  rw [tail, infix_append_cons_iff (by decide), or_iff_right uri.path_unmarked, query,
    mark_infix_intercalate]
  simp only [List.mem_map, exists_exists_and_eq_and, part]
  refine exists_congr fun param => and_congr_right fun _ => ?_
  rw [infix_append_cons_iff (by decide)]

/-- A composed URI is parsed into its components just if there is a `://` behind a prefix, or none
in the names and values of the parameters. -/
theorem recovered_iff (uri : UriComponents) : uri.Recovered ↔ uri.uriPrefix.isSome = true ∨
    ∀ param ∈ uri.params, ¬schemeMark <:+: param.1 ∧ ¬schemeMark <:+: param.2 := by
  cases front : uri.uriPrefix with
  | some front_ =>
      refine iff_of_true (fun oPrefix oPath => ?_) (Or.inl rfl)
      have place : find schemeMark (front_ ++ (schemeMark ++ uri.tail)) = some front_.length :=
        find_append (by decide) (uri.prefix_unmarked front_ front) uri.tail
      have behind := drop_mark front_ schemeMark uri.tail
      rw [text, front, doParseUri]
      dsimp only
      rw [place]
      dsimp only
      rw [List.take_left, show 3 = schemeMark.length from rfl, behind]
      exact parsePath_tail front_ oPath
  | none =>
      have unmarked : (∀ param ∈ uri.params, ¬schemeMark <:+: param.1 ∧ ¬schemeMark <:+: param.2) ↔
          ¬schemeMark <:+: uri.tail := by
        rw [mark_infix_tail]
        simp
      rw [Option.isSome_none, unmarked]
      simp only [Bool.false_eq_true, false_or]
      constructor
      · intro recovered
        rw [← find_eq_none_iff]
        by_contra marked
        obtain ⟨pos, found⟩ := Option.ne_none_iff_exists'.mp marked
        have stored := recovered (':' :: uri.tail.take pos) []
        rw [text, front, doParseUri] at stored
        dsimp only at stored
        rw [found] at stored
        have same := congrArg ParsedUri.oPrefix stored
        dsimp only at same
        rw [oPrefix_parsePath] at same
        simp at same
      · intro absent oPrefix oPath
        rw [text, front, doParseUri]
        dsimp only
        rw [find_eq_none_iff.mpr absent]
        simpa [front] using parsePath_tail oPrefix oPath

/-- `a?b=c://d` -/
def markedValue : UriComponents where
  uriPrefix := none
  path := ['a']
  params := [(['b'], ['c', ':', '/', '/', 'd'])]
  prefix_unmarked := by simp
  path_unmarked := by decide
  path_plain := by decide
  names_distinct := by decide
  names_plain := by decide
  values_plain := by decide

/-- A `://` in a value is taken for the one behind a prefix. -/
theorem markedValue_not_recovered : ¬markedValue.Recovered := by
  intro recovered
  have path := congrArg ParsedUri.oPath (recovered [] [])
  exact absurd path (by decide)

end UriComponents

end FlashForwarder
