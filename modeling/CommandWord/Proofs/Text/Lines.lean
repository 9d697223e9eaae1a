import CommandWord.Text

/-!
Lines as characters. Every line stands in the text with a line break behind it, so a text with a
line is not empty, and lines in a row are texts in a row.
-/

namespace CommandWord.Lines

theorem notMem_ofList {c : Char} {chars : List Char} (hnot : chars.contains c = false) :
    c ∉ (String.ofList chars).toList := by
  rw [String.toList_ofList]
  simpa using hnot

theorem toList_unlines (lines : List String) :
    (unlines lines).toList = lines.flatMap fun line => line.toList ++ ['\n'] := by
  simp [unlines, String.toList_join, List.flatMap_map]

theorem toList_unlines_cons (line : String) (rest : List String) :
    (unlines (line :: rest)).toList = line.toList ++ (['\n'] ++ (unlines rest).toList) := by
  simp only [toList_unlines, List.flatMap_cons, List.append_assoc]

theorem toList_unlines_append (first second : List String) :
    (unlines (first ++ second)).toList = (unlines first).toList ++ (unlines second).toList := by
  simp only [toList_unlines, List.flatMap_append]

theorem toList_unlines_flatMap {α : Type} (list : List α) (linesOf : α → List String) :
    (unlines (list.flatMap linesOf)).toList =
      list.flatMap fun element => (unlines (linesOf element)).toList := by
  simp only [toList_unlines, List.flatMap_assoc]

theorem toList_unlines_ne_nil {lines : List String} (hlines : lines ≠ []) :
    (unlines lines).toList ≠ [] := by
  obtain ⟨line, rest, rfl⟩ := List.exists_cons_of_ne_nil hlines
  rw [toList_unlines_cons]
  simp

end CommandWord.Lines
