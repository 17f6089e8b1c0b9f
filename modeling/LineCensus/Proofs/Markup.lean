import LineCensus.Report

/-!
# Reading web pages

A reader of tags and of the text between them that knows nothing of tables. The tags of a page
follow from the shape of its table alone, and its cells hold the texts of the table.
-/

namespace LineCensus

namespace Html

/-! ## The reader -/

/-- The pieces of a page, cut at the marks that open a tag and those that close one in turn. -/
def pieces : Bool → Text → List Text
  | _, [] => [[]]
  | tag, c :: r =>
    if c = (if tag then '>' else '<') then [] :: pieces (!tag) r
    else (pieces tag r).modifyHead (c :: ·)

def inPairs : List Text → List (Text × Text)
  | tag :: text :: r => (tag, text) :: inPairs r
  | _ => []

/-- The tags of a page in their order, each with the text behind it. -/
def tagged (t : Text) : List (Text × Text) :=
  inPairs (pieces false t).tail

def isCell (tag : Text) : Bool :=
  tag == "th".toList || tag == "td".toList

/-- The texts between the opening and the closing tag of a cell. -/
def cellTexts : List (Text × Text) → List Text
  | (tag, text) :: (close, behind) :: r =>
    if isCell tag = true ∧ close = '/' :: tag then text :: cellTexts ((close, behind) :: r)
    else cellTexts ((close, behind) :: r)
  | _ => []

/-- The text that a text with character references stands for. -/
def unescaped : Text → Text
  | '&' :: 'a' :: 'm' :: 'p' :: ';' :: r => '&' :: unescaped r
  | '&' :: 'l' :: 't' :: ';' :: r => '<' :: unescaped r
  | '&' :: 'g' :: 't' :: ';' :: r => '>' :: unescaped r
  | '&' :: 'q' :: 'u' :: 'o' :: 't' :: ';' :: r => '"' :: unescaped r
  | '&' :: '#' :: '3' :: '9' :: ';' :: r => '\'' :: unescaped r
  | c :: r => c :: unescaped r
  | [] => []

example : unescaped "&amp;lt; &#39; &".toList = "&lt; ' &".toList := by decide

/-! ## Character references -/

theorem unescaped_reference (c : Char) (r : Text) :
    unescaped (Table.reference c ++ r) = c :: unescaped r := by
  by_cases hand : c = '&'
  · rw [hand]; rfl
  by_cases hless : c = '<'
  · rw [hless]; rfl
  by_cases hgreater : c = '>'
  · rw [hgreater]; rfl
  by_cases hquote : c = '"'
  · rw [hquote]; rfl
  by_cases hmark : c = '\''
  · rw [hmark]; rfl
  have hself : Table.reference c = [c] := by
    simp only [Table.reference, if_neg hand, if_neg hless, if_neg hgreater, if_neg hquote,
      if_neg hmark]
  rw [hself, List.singleton_append, unescaped]
  all_goals exact fun _ h _ => hand h

theorem unescaped_escaped (t : Text) : unescaped (Table.escaped t) = t := by
  induction t with
  | nil => rfl
  | cons c t ih =>
    rw [Table.escaped, List.flatMap_cons, unescaped_reference]
    exact congrArg (c :: ·) ih

theorem not_mem_escaped (t : Text) : '<' ∉ Table.escaped t := by
  intro h
  obtain ⟨c, -, hc⟩ := List.mem_flatMap.mp h
  unfold Table.reference at hc
  split at hc
  · revert hc; decide
  split at hc
  · revert hc; decide
  split at hc
  · revert hc; decide
  split at hc
  · revert hc; decide
  split at hc
  · revert hc; decide
  · next hless _ _ _ => exact hless (List.mem_singleton.mp hc).symm

/-! ## Pages as tags -/

def write (page : List (Text × Text)) : Text :=
  page.flatMap fun (tag, text) => '<' :: tag ++ '>' :: text

theorem write_cons (tag text : Text) (page : List (Text × Text)) :
    write ((tag, text) :: page) = '<' :: tag ++ '>' :: text ++ write page :=
  List.flatMap_cons

theorem write_append (page page' : List (Text × Text)) :
    write (page ++ page') = write page ++ write page' :=
  List.flatMap_append

theorem write_flatMap {α : Type} (l : List α) (f : α → List (Text × Text)) :
    write (l.flatMap f) = l.flatMap fun a => write (f a) :=
  List.flatMap_assoc

theorem pieces_append (tag : Bool) {mark : Char} (hm : mark = if tag then '>' else '<') {t : Text}
    (ht : mark ∉ t) (r : Text) : pieces tag (t ++ mark :: r) = t :: pieces (!tag) r := by
  induction t with
  | nil => simp [pieces, hm]
  | cons c t ih =>
    rw [List.mem_cons, not_or] at ht
    rw [List.cons_append, pieces, ← hm, if_neg (Ne.symm ht.1), ih ht.2]
    rfl

theorem pieces_of_not_mem {t : Text} (ht : '<' ∉ t) : pieces false t = [t] := by
  induction t with
  | nil => rfl
  | cons c t ih =>
    rw [List.mem_cons, not_or] at ht
    rw [pieces, ih ht.2]
    exact if_neg (Ne.symm ht.1)

/-- Text is cut from the tag behind it, if there is one. -/
theorem pieces_write {page : List (Text × Text)} (h : ∀ p ∈ page, '>' ∉ p.1 ∧ '<' ∉ p.2)
    (text : Text) (ht : '<' ∉ text) :
    pieces false (text ++ write page) = text :: page.flatMap fun (tag, text) => [tag, text] := by
  induction page generalizing text with
  | nil => rw [write, List.flatMap_nil, List.append_nil, pieces_of_not_mem ht]; rfl
  | cons p page ih =>
    obtain ⟨tag, behind⟩ := p
    obtain ⟨htag, hbehind⟩ := h _ (List.mem_cons_self ..)
    have hrest := ih (fun p hp => h p (List.mem_cons_of_mem _ hp)) behind hbehind
    calc pieces false (text ++ write ((tag, behind) :: page))
        = pieces false (text ++ '<' :: (tag ++ '>' :: (behind ++ write page))) := by
          simp only [write_cons, List.cons_append, List.append_assoc]
      _ = text :: pieces true (tag ++ '>' :: (behind ++ write page)) := pieces_append false rfl ht _
      _ = text :: tag :: pieces false (behind ++ write page) := by
          exact congrArg (text :: ·) (pieces_append true rfl htag _)
      _ = text :: tag :: behind :: page.flatMap fun (tag, text) => [tag, text] := by rw [hrest]

theorem inPairs_flatMap (page : List (Text × Text)) :
    inPairs (page.flatMap fun (tag, text) => [tag, text]) = page := by
  induction page with
  | nil => rfl
  | cons p page ih => exact congrArg (p :: ·) ih

theorem tagged_write {page : List (Text × Text)} (h : ∀ p ∈ page, '>' ∉ p.1 ∧ '<' ∉ p.2) :
    tagged (write page) = page := by
  have hp := pieces_write h [] List.not_mem_nil
  rw [List.nil_append] at hp
  rw [tagged, hp]
  exact inPairs_flatMap page

/-! ## Pages of tables -/

def cellPairs (tag content : Text) : List (Text × Text) :=
  [(tag, Table.escaped content), ('/' :: tag, [])]

def rowPairs (tag : Text) (r : Row) : List (Text × Text) :=
  ("tr".toList, []) :: (r.label :: r.values).flatMap (cellPairs tag) ++
    [("/tr".toList, ['\n'])]

def startPairs : List (Text × Text) :=
  [("!DOCTYPE html".toList, ['\n']), ("html".toList, ['\n']), ("head".toList, ['\n']),
    ("meta charset=\"utf-8\"".toList, ['\n']), ("title".toList, "Lines of code".toList),
    ("/title".toList, ['\n']), ("/head".toList, ['\n']), ("body".toList, ['\n']),
    ("table".toList, ['\n']), ("thead".toList, []), ("tr".toList, [])]

def bodyPairs : List (Text × Text) :=
  [("/tr".toList, []), ("/thead".toList, ['\n']), ("tbody".toList, ['\n'])]

def footPairs : List (Text × Text) :=
  [("/tbody".toList, ['\n']), ("tfoot".toList, ['\n'])]

def endPairs : List (Text × Text) :=
  [("/tfoot".toList, ['\n']), ("/table".toList, ['\n']), ("/body".toList, ['\n']),
    ("/html".toList, ['\n'])]

def pagePairs (t : Table) : List (Text × Text) :=
  startPairs ++ t.headers.flatMap (cellPairs "th".toList) ++ bodyPairs ++
    t.rows.flatMap (rowPairs "td".toList) ++ footPairs ++ rowPairs "th".toList t.footer ++ endPairs

theorem write_cellPairs (tag content : Text) :
    write (cellPairs tag content) = Table.cell tag content := by
  simp [write, cellPairs, Table.cell]

theorem write_rowPairs (tag : Text) (r : Row) :
    write (rowPairs tag r) = Table.htmlRow tag r := by
  have hcells : write ((r.label :: r.values).flatMap (cellPairs tag)) =
      (r.label :: r.values).flatMap (Table.cell tag) := by
    rw [write_flatMap]
    exact congrArg (List.flatMap · _) (funext (write_cellPairs tag))
  rw [rowPairs, write_append, write_cons, hcells]
  rfl

theorem write_pagePairs (t : Table) : write (pagePairs t) = t.html := by
  have hstart : write startPairs = Table.pageStart ++ "<thead><tr>".toList := by decide +kernel
  simp only [pagePairs, write_append, write_flatMap, write_cellPairs, write_rowPairs, hstart]
  rfl

/-! ## Marks stay in their places -/

/-- No tag holds the mark that closes tags, and no text the one that opens them. -/
def Separate (page : List (Text × Text)) : Prop :=
  ∀ p ∈ page, '>' ∉ p.1 ∧ '<' ∉ p.2

instance (page : List (Text × Text)) : Decidable (Separate page) :=
  inferInstanceAs (Decidable (∀ p ∈ page, '>' ∉ p.1 ∧ '<' ∉ p.2))

theorem Separate.append {page page' : List (Text × Text)} (h : Separate page)
    (h' : Separate page') : Separate (page ++ page') :=
  List.forall_mem_append.mpr ⟨h, h'⟩

theorem Separate.flatMap {α : Type} {f : α → List (Text × Text)} (h : ∀ a, Separate (f a))
    (l : List α) : Separate (l.flatMap f) := by
  intro p hp
  obtain ⟨a, -, ha⟩ := List.mem_flatMap.mp hp
  exact h a p ha

section
variable {tag : Text} (ht : '>' ∉ tag)
include ht

theorem separate_cellPairs (content : Text) : Separate (cellPairs tag content) := by
  intro p hp
  rw [cellPairs, List.mem_cons, List.mem_singleton] at hp
  rcases hp with rfl | rfl
  · exact ⟨ht, not_mem_escaped content⟩
  · exact ⟨List.not_mem_cons_of_ne_of_not_mem (by decide) ht, List.not_mem_nil⟩

theorem separate_rowPairs (r : Row) : Separate (rowPairs tag r) := by
  have hopen : Separate [("tr".toList, [])] := by decide
  have hclose : Separate [("/tr".toList, ['\n'])] := by decide
  exact (hopen.append (.flatMap (separate_cellPairs ht) _)).append hclose

end

theorem separate_pagePairs (t : Table) : Separate (pagePairs t) := by
  have hstart : Separate startPairs := by decide
  have hbody : Separate bodyPairs := by decide
  have hfoot : Separate footPairs := by decide
  have hend : Separate endPairs := by decide
  have hth : '>' ∉ "th".toList := by decide
  have htd : '>' ∉ "td".toList := by decide
  have hheaders := Separate.flatMap (separate_cellPairs hth) t.headers
  have hrows := Separate.flatMap (separate_rowPairs htd) t.rows
  have hfooter := separate_rowPairs hth t.footer
  exact (((((hstart.append hheaders).append hbody).append hrows).append hfoot).append
    hfooter).append hend

theorem tagged_html (t : Table) : tagged t.html = pagePairs t := by
  rw [← write_pagePairs, tagged_write (separate_pagePairs t)]

/-! ## The tags of a page -/

def cellTags (tag : Text) (cells : Nat) : List Text :=
  (List.replicate cells [tag, '/' :: tag]).flatten

def rowTags (tag : Text) (values : Nat) : List Text :=
  "tr".toList :: cellTags tag (values + 1) ++ ["/tr".toList]

def pageTags (headers : Nat) (rows : List Nat) (footer : Nat) : List Text :=
  startPairs.map Prod.fst ++ cellTags "th".toList headers ++ bodyPairs.map Prod.fst ++
    rows.flatMap (rowTags "td".toList) ++ footPairs.map Prod.fst ++ rowTags "th".toList footer ++
    endPairs.map Prod.fst

theorem map_fst_cellPairs (tag : Text) (contents : List Text) :
    (contents.flatMap (cellPairs tag)).map Prod.fst = cellTags tag contents.length := by
  induction contents with
  | nil => rfl
  | cons content contents ih =>
    rw [List.flatMap_cons, List.map_append, ih]
    rfl

theorem map_fst_rowPairs (tag : Text) (r : Row) :
    (rowPairs tag r).map Prod.fst = rowTags tag r.values.length := by
  rw [rowPairs, List.map_append, List.map_cons, map_fst_cellPairs]
  rfl

theorem map_fst_pagePairs (t : Table) : (pagePairs t).map Prod.fst =
    pageTags t.headers.length (t.rows.map (·.values.length)) t.footer.values.length := by
  have hrows : (t.rows.flatMap (rowPairs "td".toList)).map Prod.fst =
      (t.rows.map (·.values.length)).flatMap (rowTags "td".toList) := by
    simp only [List.map_flatMap, List.flatMap_map, map_fst_rowPairs]
  simp only [pagePairs, pageTags, List.map_append, map_fst_cellPairs, map_fst_rowPairs, hrows]

/-! ## The cells of a page -/

theorem cellTexts_cons {tag text : Text} (h : isCell tag = false) (page : List (Text × Text)) :
    cellTexts ((tag, text) :: page) = cellTexts page := by
  cases page with
  | nil => rfl
  | cons p page => simp [cellTexts, h]

theorem cellTexts_append {page : List (Text × Text)} (h : ∀ p ∈ page, isCell p.1 = false)
    (page' : List (Text × Text)) : cellTexts (page ++ page') = cellTexts page' := by
  induction page with
  | nil => rfl
  | cons p page ih =>
    rw [List.cons_append, cellTexts_cons (h p (List.mem_cons_self ..))]
    exact ih fun p hp => h p (List.mem_cons_of_mem _ hp)

section
variable {tag : Text} (ht : isCell tag = true)
include ht

theorem cellTexts_cellPairs (contents : List Text) (page : List (Text × Text)) :
    (cellTexts (contents.flatMap (cellPairs tag) ++ page)).map unescaped =
      contents ++ (cellTexts page).map unescaped := by
  have hclose : isCell ('/' :: tag) = false := by simp [isCell]
  induction contents with
  | nil => rfl
  | cons content contents ih =>
    rw [List.flatMap_cons, List.append_assoc, cellPairs, List.cons_append, List.cons_append,
      List.nil_append, cellTexts, if_pos ⟨ht, rfl⟩, cellTexts_cons hclose, List.map_cons,
      unescaped_escaped, ih]
    rfl

theorem cellTexts_rowPairs (r : Row) (page : List (Text × Text)) :
    (cellTexts (rowPairs tag r ++ page)).map unescaped =
      r.label :: r.values ++ (cellTexts page).map unescaped := by
  rw [rowPairs, List.append_assoc, List.cons_append, cellTexts_cons (by decide),
    cellTexts_cellPairs ht, List.singleton_append, cellTexts_cons (by decide)]

theorem cellTexts_rows (rows : List Row) (page : List (Text × Text)) :
    (cellTexts (rows.flatMap (rowPairs tag) ++ page)).map unescaped =
      (rows.flatMap fun r => r.label :: r.values) ++ (cellTexts page).map unescaped := by
  induction rows with
  | nil => rfl
  | cons r rows ih =>
    rw [List.flatMap_cons, List.flatMap_cons, List.append_assoc, List.append_assoc,
      cellTexts_rowPairs ht, ih]

end

theorem cellTexts_pagePairs (t : Table) : (cellTexts (pagePairs t)).map unescaped =
    t.headers ++ (t.rows.flatMap fun r => r.label :: r.values) ++
      t.footer.label :: t.footer.values := by
  have hth : isCell "th".toList = true := by decide
  have htd : isCell "td".toList = true := by decide
  simp only [pagePairs, List.append_assoc]
  rw [cellTexts_append (by decide), cellTexts_cellPairs hth, cellTexts_append (by decide),
    cellTexts_rows htd, cellTexts_append (by decide), cellTexts_rowPairs hth,
    show cellTexts endPairs = [] by decide, List.map_nil, List.append_nil]

/-- The tags of a page follow from the shape of its table, and its cells are the texts of the
table. -/
theorem read_html (t : Table) :
    (tagged t.html).map Prod.fst =
      pageTags t.headers.length (t.rows.map (·.values.length)) t.footer.values.length ∧
    (cellTexts (tagged t.html)).map unescaped =
      t.headers ++ (t.rows.flatMap fun r => r.label :: r.values) ++
        t.footer.label :: t.footer.values := by
  rw [tagged_html]
  exact ⟨map_fst_pagePairs t, cellTexts_pagePairs t⟩

end Html

end LineCensus
