import FramedStore.Disk
import Mathlib.Data.String.Basic

/-!
# Written paths

The names on a written path are what stands between its slashes. A plain name, written behind a
directory, is one more name on the directory's path (`Path.ofString_join`).
-/

namespace FramedStore

open String

/-! ### Splitting at slashes -/

section Scan

variable (front part rest : List Char) (c : Char)

/-- The position behind two pieces at the front of a string. -/
def behind : Pos.Raw := ⟨utf8Len front + utf8Len part⟩

theorem atEnd_behind :
    Pos.Raw.atEnd (ofList (front ++ part ++ rest)) (behind front part) = true ↔ rest = [] := by
  rw [behind, ← utf8Len_append]
  exact atEnd_of_valid (front ++ part) rest

theorem extract_behind : Pos.Raw.extract (ofList (front ++ part ++ rest)) ⟨utf8Len front⟩
    (behind front part) = ofList part := extract_of_valid front part rest

theorem get_behind : Pos.Raw.get (ofList (front ++ part ++ c :: rest)) (behind front part) = c := by
  rw [behind, ← utf8Len_append]
  exact get_of_valid (front ++ part) (c :: rest)

theorem next_behind : Pos.Raw.next (ofList (front ++ part ++ c :: rest)) (behind front part) =
    behind front (part ++ [c]) := by
  have hnext := next_of_valid (front ++ part) c rest
  rw [utf8Len_append] at hnext
  refine hnext.trans (congrArg Pos.Raw.mk ?_)
  simp [utf8Len_append, Nat.add_assoc]

/-- A slash ends one part, and the next one starts behind it. -/
theorem behind_slash : (behind front (part ++ ['/'])).unoffsetBy (Pos.Raw.next "/" 0) =
      behind front part ∧
    behind front (part ++ ['/']) = ⟨utf8Len (front ++ part ++ ['/'])⟩ := by
  have hlength : utf8Len (part ++ ['/']) = utf8Len part + ('/').utf8Size := by
    simp [utf8Len_append]
  unfold behind
  rw [hlength]
  refine ⟨rfl, congrArg Pos.Raw.mk ?_⟩
  simp [utf8Len_append]

end Scan

/-- The scan of a string of which `part` has been seen since the last slash. -/
theorem splitOnAux_slash (front part rest : List Char) (found : List String) :
    (ofList (front ++ part ++ rest)).splitOnAux "/" ⟨utf8Len front⟩ (behind front part) 0 found =
      found.reverse ++ (List.splitOnPPrepend (· == '/') rest part.reverse).map ofList := by
  rw [splitOnAux]
  cases rest with
  | nil =>
    rw [if_pos ((atEnd_behind front part []).mpr rfl), extract_behind]
    simp
  | cons c rest =>
    have hmore : ¬ Pos.Raw.atEnd (ofList (front ++ part ++ c :: rest)) (behind front part) = true :=
      fun h => by cases (atEnd_behind front part (c :: rest)).mp h
    have hslash : Pos.Raw.get "/" 0 = '/' := rfl
    rw [if_neg hmore, get_behind, next_behind, hslash, List.splitOnPPrepend_cons_eq_if]
    by_cases hc : c = '/'
    · subst hc
      have hslashEnd : Pos.Raw.atEnd "/" (Pos.Raw.next "/" 0) = true := rfl
      obtain ⟨hback, hstart⟩ := behind_slash front part
      have hlater := splitOnAux_slash (front ++ part ++ ['/']) [] rest (ofList part :: found)
      rw [if_pos (beq_self_eq_true _), if_pos (beq_self_eq_true _)]
      dsimp only
      rw [if_pos hslashEnd, hback, extract_behind, hstart]
      have hchars : front ++ part ++ '/' :: rest = front ++ part ++ ['/'] ++ [] ++ rest := by simp
      rw [hchars]
      refine hlater.trans ?_
      simp
    · have hlater := splitOnAux_slash front (part ++ [c]) rest found
      have hchars : front ++ part ++ c :: rest = front ++ (part ++ [c]) ++ rest := by simp
      have hnone : (behind front part).unoffsetBy 0 = behind front part := rfl
      rw [if_neg (by simpa using hc), if_neg (by simpa using hc), hnone, next_behind, hchars, hlater,
        List.reverse_append]
      simp

theorem splitOn_slash (s : String) :
    s.splitOn "/" = (s.toList.splitOnP (· == '/')).map ofList := by
  have haux := splitOnAux_slash [] [] s.toList []
  rw [List.nil_append, List.nil_append, ofList_toList] at haux
  exact haux

theorem splitOn_append_slash (front rest : String) :
    (front ++ "/" ++ rest).splitOn "/" = front.splitOn "/" ++ rest.splitOn "/" := by
  have hchars : (front ++ "/" ++ rest).toList = front.toList ++ '/' :: rest.toList := by
    simp [String.toList_append]
  have hsplit := List.splitOnP_append_cons (p := (· == '/')) front.toList rest.toList
    (beq_self_eq_true '/')
  rw [splitOn_slash, splitOn_slash, splitOn_slash, hchars, hsplit, List.map_append]

theorem splitOn_of_not_mem {s : String} (h : '/' ∉ s.toList) : s.splitOn "/" = [s] := by
  have hsingle : s.toList.splitOnP (· == '/') = [s.toList] := by
    refine List.splitOnP_eq_singleton fun c hc => ?_
    rw [beq_eq_false_iff_ne]
    rintro rfl
    exact h hc
  rw [splitOn_slash, hsingle, List.map_singleton, ofList_toList]

namespace Path

/-! ### Names on a path -/

/-- Goes on by one written name. -/
def enter (names : Path) (name : String) : Path :=
  if name = "" ∨ name = "." then names
  else if name = ".." then names.dropLast
  else names ++ [name]

theorem ofString_eq (path : String) : ofString path = (path.splitOn "/").foldl enter [] := rfl

/-- A name that is an entry of a directory wherever it is written. -/
structure Plain (name : String) : Prop where
  slash : '/' ∉ name.toList
  ne_empty : name ≠ ""
  ne_dot : name ≠ "."
  ne_dots : name ≠ ".."

theorem enter_plain {name : String} (h : Plain name) (names : Path) :
    names.enter name = names ++ [name] := by
  unfold enter
  rw [if_neg (not_or.mpr ⟨h.ne_empty, h.ne_dot⟩), if_neg h.ne_dots]

theorem ofString_plain {name : String} (h : Plain name) : ofString name = [name] := by
  rw [ofString_eq, splitOn_of_not_mem h.slash, List.foldl_cons, List.foldl_nil, enter_plain h]
  rfl

theorem isDirectoryForm_plain {name : String} (h : Plain name) : isDirectoryForm name = false := by
  unfold isDirectoryForm
  rw [splitOn_of_not_mem h.slash]
  simp [h.ne_empty, h.ne_dot, h.ne_dots]

theorem splitOn_empty : "".splitOn "/" = [""] := splitOn_of_not_mem (by simp)

theorem ofString_empty : ofString "" = [] := by
  rw [ofString_eq, splitOn_empty]
  rfl

/-- A slash at the end stands for nothing. -/
theorem ofString_slash (directory : String) : ofString (directory ++ "/") = ofString directory := by
  have hsplit := splitOn_append_slash directory ""
  rw [String.append_empty, splitOn_empty] at hsplit
  rw [ofString_eq, hsplit, List.foldl_append, ← ofString_eq]
  rfl

/-- What is written in front of a joined name. -/
theorem join_cases {name : String} (h : Plain name) (directory : String) :
    (directory = "" ∧ join directory name = name) ∨
      ∃ front, ofString front = ofString directory ∧ front.toList ⊆ directory.toList ∧
        join directory name = front ++ "/" ++ name := by
  have hstart : name.startsWith "/" = false := by
    rw [startsWith_string_eq_false_iff]
    exact fun hfront => h.slash (hfront.subset List.mem_cons_self)
  unfold join
  rw [hstart, if_neg Bool.false_ne_true]
  by_cases hempty : directory = ""
  · subst hempty
    exact .inl ⟨rfl, by simp⟩
  right
  by_cases hend : directory.endsWith "/" = true
  · rw [if_pos (.inr hend)]
    rw [endsWith_eq_endsWith_toSlice, Slice.endsWith_string_iff, copy_toSlice] at hend
    obtain ⟨chars, hchars⟩ := hend
    have hdirectory : directory = ofList chars ++ "/" := by
      rw [← toList_inj, toList_append, toList_ofList, hchars]
    refine ⟨ofList chars, ?_, ?_, ?_⟩
    · rw [hdirectory, ofString_slash]
    · rw [toList_ofList, ← hchars]
      exact List.subset_append_left _ _
    · rw [← hdirectory]
  · rw [if_neg (not_or.mpr ⟨hempty, hend⟩)]
    exact ⟨directory, rfl, fun _ hc => hc, rfl⟩

variable {name : String} (h : Plain name) (directory : String)
include h

theorem splitOn_join : ∃ names, (join directory name).splitOn "/" = names ++ [name] ∧
    names.foldl enter [] = ofString directory := by
  have hname := splitOn_of_not_mem h.slash
  rcases join_cases h directory with ⟨rfl, hjoin⟩ | ⟨front, hfront, -, hjoin⟩
  · exact ⟨[], by rw [hjoin, hname, List.nil_append], ofString_empty.symm⟩
  · exact ⟨front.splitOn "/", by rw [hjoin, splitOn_append_slash, hname], hfront⟩

/-- **A plain name behind a directory is one more name on its path.** -/
theorem ofString_join : ofString (join directory name) = ofString directory ++ [name] := by
  obtain ⟨names, hsplit, hnames⟩ := splitOn_join h directory
  rw [ofString_eq, hsplit, List.foldl_append, hnames, List.foldl_cons, List.foldl_nil,
    enter_plain h]

theorem isDirectoryForm_join : isDirectoryForm (join directory name) = false := by
  obtain ⟨names, hsplit, -⟩ := splitOn_join h directory
  unfold isDirectoryForm
  rw [hsplit, List.getLast?_append, List.getLast?_singleton]
  simp [h.ne_empty, h.ne_dot, h.ne_dots]

theorem isEmpty_join : (join directory name).isEmpty = false := by
  rw [isEmpty_eq_false_iff]
  rcases join_cases h directory with ⟨-, hjoin⟩ | ⟨front, -, -, hjoin⟩ <;> rw [hjoin]
  · exact h.ne_empty
  · intro hempty
    have hchars := congrArg String.toList hempty
    simp [String.toList_append] at hchars

theorem contains_join {c : Char} (hslash : c ≠ '/') (hdirectory : directory.contains c = false)
    (hname : name.contains c = false) : (join directory name).contains c = false := by
  rw [contains_char_eq, decide_eq_false_iff_not] at *
  rcases join_cases h directory with ⟨-, hjoin⟩ | ⟨front, -, hsubset, hjoin⟩ <;> rw [hjoin]
  · exact hname
  · have hfront : c ∉ front.toList := fun hc => hdirectory (hsubset hc)
    simp [String.toList_append, hslash, hfront, hname]

end Path

end FramedStore
