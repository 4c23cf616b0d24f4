import DecentralizedCloud.Common.Message
import Mathlib.Algebra.Group.Nat.Defs

/-!
# Compressed texts without null characters

Messages are C strings on their way, so `compressString` takes the zero bytes out of what zlib
makes and puts a header of their positions in front. `decompressString` reads the header and
inserts them again. A text is the `String` of its bytes; zlib is any lossless codec.

The positions come in ascending order, so that each byte is inserted where it was taken out
(`insertNulls_positions`). But the header of a text without zero bytes is empty, and the empty
text is no number: what has nothing to restore cannot be read
(`decompressString_compressString_iff`).
-/

namespace DecentralizedCloud

/-- A lossless codec; `none` stands for an exception. -/
structure Zlib where
  compress : String → String
  decompress : String → Option String
  decompress_compress : ∀ s, decompress (compress s) = some s

/-! ## The two functions -/

/-- A position behind the ones that the header has. -/
def appendPosition (headers : String) (position : Nat) : String :=
  (if headers = "" then headers else headers ++ ",") ++ toString (position : Int)

/-- The loop that takes out the zero bytes: the header, and what is left. -/
def stripNulls : Nat → String → List Char → String × List Char
  | _, headers, [] => (headers, [])
  | position, headers, c :: rest =>
      if c = '\x00' then stripNulls (position + 1) (appendPosition headers position) rest
      else
        let (headers, kept) := stripNulls (position + 1) headers rest
        (headers, c :: kept)

/-- `position` is an `int`: counting a text that is too long overflows. -/
def compressString (zlib : Zlib) (data : String) : Option String :=
  let strOfStream := (zlib.compress (removeNullTerminators data)).toList
  if strOfStream.length < 2 ^ 31 then
    let (headers, kept) := stripNulls 0 "" strOfStream
    some (headers ++ "_" ++ String.ofList kept)
  else none

/-- `insert` at the end at the latest; what is no number raises. -/
def insertNull (compressedString : List Char) (index : String) : Option (List Char) := do
  let position ← stoi index
  if 0 ≤ position ∧ position ≤ compressedString.length then
    some (compressedString.take position.toNat ++
      '\x00' :: compressedString.drop position.toNat)
  else none

def decompressString (zlib : Zlib) (data : String) : Option String :=
  match split '_' data with
  | headers :: compressed :: more => do
      -- the parts behind the header belong together
      let compressedString := more.foldl (fun s part => s ++ "_" ++ part) compressed
      let restored ← (split ',' headers).foldlM insertNull compressedString.toList
      zlib.decompress (String.ofList restored)
  | _ => none

/-! ## What the header says -/

/-- The positions of the zero bytes, from `position` on. -/
def nullPositions : Nat → List Char → List Nat
  | _, [] => []
  | position, c :: rest =>
      if c = '\x00' then position :: nullPositions (position + 1) rest
      else nullPositions (position + 1) rest

theorem nullPositions_eq_nil_iff {position : Nat} {cs : List Char} :
    nullPositions position cs = [] ↔ '\x00' ∉ cs := by
  induction cs generalizing position with
  | nil => simp [nullPositions]
  | cons c cs ih =>
      unfold nullPositions
      by_cases hc : c = '\x00'
      · simp [hc]
      · rw [if_neg hc, ih, List.mem_cons, not_or]
        exact (and_iff_right (Ne.symm hc)).symm

theorem stripNulls_eq (position : Nat) (headers : String) (cs : List Char) :
    stripNulls position headers cs =
      ((nullPositions position cs).foldl appendPosition headers, cs.filter (· ≠ '\x00')) := by
  induction cs generalizing position headers with
  | nil => rfl
  | cons c cs ih =>
      unfold stripNulls nullPositions
      by_cases hc : c = '\x00' <;> simp [hc, ih]

theorem toList_foldl_append (delimiter first : String) (more : List String) :
    (more.foldl (fun s part => s ++ delimiter ++ part) first).toList =
      delimiter.toList.intercalate ((first :: more).map String.toList) := by
  induction more generalizing first with
  | nil => simp
  | cons part more ih =>
      rw [List.foldl_cons, ih]
      cases more <;> simp [List.intercalate_cons_cons]

theorem toString_int_ne_empty (z : Int) : toString z ≠ "" := by
  intro h
  have hread := leadingInteger_toString z
  rw [h] at hread
  cases hread

/-- A header that is not empty lists its positions. -/
theorem foldl_appendPosition {headers : String} (h : headers ≠ "") (positions : List Nat) :
    positions.foldl appendPosition headers =
      (positions.map fun position : Nat => toString (position : Int)).foldl
        (fun s part => s ++ "," ++ part) headers := by
  induction positions generalizing headers with
  | nil => rfl
  | cons position positions ih =>
      have hstep : appendPosition headers position =
          headers ++ "," ++ toString (position : Int) := by
        rw [appendPosition, if_neg h]
      have hne : headers ++ "," ++ toString (position : Int) ≠ "" := by
        rw [Ne, String.append_eq_empty_iff]
        exact fun hempty => toString_int_ne_empty _ hempty.2
      rw [List.foldl_cons, List.map_cons, List.foldl_cons, hstep, ih hne]

/-- The header is split into its positions again. -/
theorem split_headers {positions : List Nat} (h : positions ≠ []) :
    split ',' (positions.foldl appendPosition "") =
      positions.map fun position : Nat => toString (position : Int) := by
  cases positions with
  | nil => exact absurd rfl h
  | cons position positions =>
      have hfirst : appendPosition "" position = toString (position : Int) := by
        rw [appendPosition, if_pos rfl, String.empty_append]
      have hcomma : ∀ piece ∈ ((position :: positions).map fun position : Nat =>
          toString (position : Int)).map String.toList, ',' ∉ piece := by
        intro piece hpiece
        rw [List.map_map, List.mem_map] at hpiece
        rcases hpiece with ⟨position', -, rfl⟩
        exact notMem_toString_int (by decide) (by decide)
      rw [List.foldl_cons, hfirst, foldl_appendPosition (toString_int_ne_empty _), split,
        toList_foldl_append]
      have hdelimiter : ",".toList = [','] := rfl
      have hsplit := List.splitOn_intercalate ',' hcomma (List.cons_ne_nil _ _)
      rw [List.map_cons] at hsplit
      rw [hdelimiter, hsplit, List.map_map, List.map_cons]
      simp [Function.comp_def]

theorem notMem_foldl_appendPosition (positions : List Nat) {headers : String}
    (h : '_' ∉ headers.toList) : '_' ∉ (positions.foldl appendPosition headers).toList := by
  induction positions generalizing headers with
  | nil => exact h
  | cons position positions ih =>
      rw [List.foldl_cons]
      apply ih
      have hnumber : '_' ∉ (toString (position : Int)).toList :=
        notMem_toString_int (by decide) (by decide)
      unfold appendPosition
      rw [String.toList_append, List.mem_append, not_or]
      refine ⟨?_, hnumber⟩
      split <;> simp [h]

/-! ## Inserting the zero bytes again -/

theorem insertNull_length {done rest : List Char} (h : done.length < 2 ^ 31) :
    insertNull (done ++ rest) (toString (done.length : Int)) = some (done ++ '\x00' :: rest) := by
  have hread : stoi (toString (done.length : Int)) = some (done.length : Int) := by
    have hlong := stol_toString (done.length : Int)
    rw [if_pos (by omega)] at hlong
    exact hlong
  rw [insertNull, hread, Option.bind_eq_bind, Option.bind_some, if_pos]
  · rw [Int.toNat_natCast, List.take_left, List.drop_left]
  · rw [List.length_append]
    omega

/-- In the order of the positions, each zero byte comes to where it was: what is in front of it
has been restored. -/
theorem insertNulls_positions {done cs : List Char} (h : done.length + cs.length < 2 ^ 31) :
    ((nullPositions done.length cs).map fun position : Nat => toString (position : Int)).foldlM
        insertNull (done ++ cs.filter (· ≠ '\x00')) = some (done ++ cs) := by
  induction cs generalizing done with
  | nil => rfl
  | cons c cs ih =>
      rw [List.length_cons] at h
      have hfits : (done ++ [c]).length + cs.length < 2 ^ 31 := by
        rw [List.length_append, List.length_singleton]
        omega
      have hstep := ih hfits
      rw [List.length_append, List.length_singleton, List.append_assoc, List.append_assoc,
        List.singleton_append, List.singleton_append] at hstep
      unfold nullPositions
      by_cases hc : c = '\x00'
      · subst hc
        rw [if_pos rfl, List.map_cons, List.foldlM_cons,
          List.filter_cons_of_neg (by decide), insertNull_length (by omega)]
        exact hstep
      · rw [if_neg hc, List.filter_cons_of_pos (by simpa using hc)]
        exact hstep

/-! ## Round trips -/

/-- Behind a header without a delimiter, everything is the compressed text. -/
theorem decompressString_of_headers (zlib : Zlib) {headers : String}
    (h : '_' ∉ headers.toList) (kept : List Char) :
    decompressString zlib (headers ++ "_" ++ String.ofList kept) =
      ((split ',' headers).foldlM insertNull kept).bind fun restored =>
        zlib.decompress (String.ofList restored) := by
  have htext : headers ++ "_" ++ String.ofList kept =
      String.ofList (headers.toList ++ '_' :: kept) := by
    rw [← String.toList_inj]
    simp
  rcases splitOn_eq_cons '_' kept with ⟨rest, hrest⟩
  have hjoined : ((rest.map String.ofList).foldl (fun s part => s ++ "_" ++ part)
      (String.ofList (kept.takeWhile (· ≠ '_')))).toList = kept := by
    have hdelimiter : "_".toList = ['_'] := rfl
    have hparts : ((kept.splitOn '_').map String.ofList).map String.toList = kept.splitOn '_' := by
      simp [Function.comp_def]
    rw [toList_foldl_append, hdelimiter, ← List.map_cons, ← hrest, hparts,
      List.intercalate_splitOn]
  rw [decompressString, htext, split_append_of_notMem h, String.ofList_toList]
  simp only [split, String.toList_ofList, hrest, List.map_cons]
  rw [hjoined]
  rfl

theorem removeNullTerminators_eq {s : String} (hs : '\x00' ∉ s.toList) :
    removeNullTerminators s = s := by
  simp [removeNullTerminators, filter_null hs]

theorem compressString_eq (zlib : Zlib) {s : String} (hs : '\x00' ∉ s.toList)
    (hlength : (zlib.compress s).length < 2 ^ 31) :
    compressString zlib s = some
      ((nullPositions 0 (zlib.compress s).toList).foldl appendPosition "" ++ "_" ++
        String.ofList ((zlib.compress s).toList.filter (· ≠ '\x00'))) := by
  rw [compressString, removeNullTerminators_eq hs, stripNulls_eq]
  exact if_pos hlength

theorem compressString_eq_none (zlib : Zlib) {s : String} (hs : '\x00' ∉ s.toList)
    (hlength : ¬(zlib.compress s).length < 2 ^ 31) : compressString zlib s = none := by
  rw [compressString, removeNullTerminators_eq hs]
  exact if_neg hlength

/-- The text comes back out of its compressed form. -/
def Restored (zlib : Zlib) (s : String) : Prop :=
  (compressString zlib s).bind (decompressString zlib) = some s

/-- Without zero bytes the header is empty, and the empty text is no number. -/
theorem not_restored (zlib : Zlib) {s : String} (hs : '\x00' ∉ s.toList)
    (hnull : '\x00' ∉ (zlib.compress s).toList) : ¬Restored zlib s := by
  unfold Restored
  by_cases hlength : (zlib.compress s).length < 2 ^ 31
  · have hnumber : stoi "" = none := by decide
    have hheaders : split ',' "" = [""] := by decide
    rw [compressString_eq zlib hs hlength, nullPositions_eq_nil_iff.mpr hnull, Option.bind_some,
      List.foldl_nil, decompressString_of_headers zlib (by decide), hheaders, List.foldlM_cons,
      insertNull, hnumber]
    exact nofun
  · rw [compressString_eq_none zlib hs hlength]
    exact nofun

/-- A text comes back if and only if there is a zero byte to restore, and the bytes can be
counted. -/
theorem decompressString_compressString_iff (zlib : Zlib) {s : String} (hs : '\x00' ∉ s.toList) :
    Restored zlib s ↔
      '\x00' ∈ (zlib.compress s).toList ∧ (zlib.compress s).length < 2 ^ 31 := by
  constructor
  · intro h
    refine ⟨?_, ?_⟩
    -- without a position in front the text is cut at the wrong place
    · by_contra hnull
      exact not_restored zlib hs hnull h
    · by_contra hlength
      rw [Restored, compressString_eq_none zlib hs hlength] at h
      cases h
  -- the positions are read back from the headers, and the zero bytes are put there
  · rintro ⟨hnull, hlength⟩
    have hpositions : nullPositions 0 (zlib.compress s).toList ≠ [] :=
      mt nullPositions_eq_nil_iff.mp (not_not_intro hnull)
    have hheaders : '_' ∉ ((nullPositions 0 (zlib.compress s).toList).foldl
        appendPosition "").toList := notMem_foldl_appendPosition _ (by decide)
    have hlength' : ([] : List Char).length + (zlib.compress s).toList.length < 2 ^ 31 := by
      rw [List.length_nil, Nat.zero_add]
      exact hlength
    have hrestored := insertNulls_positions hlength'
    rw [List.length_nil, List.nil_append, List.nil_append] at hrestored
    rw [Restored, compressString_eq zlib hs hlength, Option.bind_some,
      decompressString_of_headers zlib hheaders, split_headers hpositions, hrestored,
      Option.bind_some, String.ofList_toList, zlib.decompress_compress]

namespace Sample

/-- A stream with zero bytes. -/
def txStream : List Char :=
  ['x', '\xDA', '+', '\xA9', '\x00', '\x00', '\x01', 'b', '\x00', '\xED']

/-- A stream without zero bytes. -/
def nodesStream : List Char :=
  ['x', '\xDA', '\xCB', '\xCB', 'O', 'I', 'U', 'H', '\xCA', '\xC9', 'O', '\xCE', 'V', '\xC8', '\x03',
    '2', '\x01', ',', '\xE4', '\x05', '\x98']

theorem stored_ne {stream : List Char} (h : stream.head? ≠ some 'z') (s : String) :
    String.ofList ('z' :: s.toList) ≠ String.ofList stream := by
  intro heq
  rw [String.ofList_inj] at heq
  rw [← heq] at h
  exact h rfl

/-- What zlib makes of two texts; other texts are kept as they are. -/
def zlib : Zlib where
  compress s :=
    if s = "tx" then String.ofList txStream
    else if s = "node block node" then String.ofList nodesStream
    else String.ofList ('z' :: s.toList)
  decompress stream :=
    if stream = String.ofList txStream then some "tx"
    else if stream = String.ofList nodesStream then some "node block node"
    else some (String.ofList (stream.toList.drop 1))
  decompress_compress s := by
    have hdistinct : String.ofList nodesStream ≠ String.ofList txStream := by
      rw [Ne, String.ofList_inj]
      decide
    have htx : String.ofList ('z' :: s.toList) ≠ String.ofList txStream :=
      stored_ne (by decide) s
    have hnodes : String.ofList ('z' :: s.toList) ≠ String.ofList nodesStream :=
      stored_ne (by decide) s
    by_cases hs : s = "tx"
    · rw [if_pos hs, if_pos rfl, hs]
    · rw [if_neg hs]
      by_cases hs' : s = "node block node"
      · rw [if_pos hs', if_neg hdistinct, if_pos rfl, hs']
      · rw [if_neg hs', if_neg htx, if_neg hnodes, String.toList_ofList, List.drop_one,
          List.tail_cons, String.ofList_toList]

end Sample

/-- The three zero bytes of the stream are put back. -/
theorem decompressString_compressString_iff_tx : Restored Sample.zlib "tx" :=
  (decompressString_compressString_iff Sample.zlib (by decide)).mpr ⟨by decide, by decide⟩

/-- A text whose stream has no zero byte. -/
theorem nodes_not_restored :
    '\x00' ∉ "node block node".toList ∧ ¬Restored Sample.zlib "node block node" := by
  have hs : '\x00' ∉ "node block node".toList := by decide
  exact ⟨hs, not_restored Sample.zlib hs (by decide)⟩

end DecentralizedCloud
