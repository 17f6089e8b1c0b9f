import LineCensus.Proofs.Masks
import LineCensus.Rules

/-!
# Stripping twice

A pass leaves no two delimiters between newlines, no later pass brings a second one back, and a line
without such pairs is left as it is. Where a guarded token came back, the line is cut once more at the
same places, for a quote that is left stands neither next to another one nor before a token. So what is
stripped is not changed by stripping it again (`strip_strip`).
-/

namespace LineCensus

namespace Literal

section
variable {α : Type} [DecidableEq α]

/-! ## Delimiters without a partner -/

/-- No two `d` stand together unless a `stop` is between them. -/
def Lone (d stop : α) (l : List α) : Prop :=
  ∀ w, w <:+: l → stop ∉ w → w.count d ≤ 1

section
variable {d stop x a : α} {l : List α}

theorem Lone.of_infix {l' : List α} (h : Lone d stop l) (hl : l' <:+: l) : Lone d stop l' :=
  fun w hw => h w (hw.trans hl)

theorem Lone.count_le_one (h : Lone d stop l) {part : List α} (hp : part ∈ Text.splitAt stop l) :
    part.count d ≤ 1 :=
  h part (Text.infix_of_mem_splitAt hp) (Text.not_mem_of_mem_splitAt hp)

theorem count_collapse_le (ha : a ≠ x) (l : List α) :
    (collapse d stop x l).count a ≤ l.count a := by
  fun_induction collapse d stop x l with
  | case1 => exact Nat.le_refl _
  | case2 r rest h _ ih =>
    have hr : rest <:+ d :: r := (suffix_of_pastNext? h).trans (List.suffix_cons ..)
    rw [List.count_cons_of_ne ha.symm]
    exact ih.trans (hr.sublist.count_le a)
  | case3 r h ih | case4 b r hb ih =>
    rw [List.count_cons, List.count_cons]
    exact Nat.add_le_add_right ih _

theorem count_collapse_self_le (hx : x ≠ d) (hs : stop ∉ l) :
    (collapse d stop x l).count d ≤ 1 := by
  fun_induction collapse d stop x l with
  | case1 => exact Nat.zero_le 1
  | case2 r rest h _ ih =>
    have hr : rest <:+ d :: r := (suffix_of_pastNext? h).trans (List.suffix_cons ..)
    rw [List.count_cons_of_ne hx]
    exact ih fun hm => hs (hr.mem hm)
  | case3 r h ih =>
    have hd := not_mem_of_pastNext?_none (fun hm => hs (List.mem_cons_of_mem _ hm)) h
    rw [collapse_of_not_mem hd, List.count_cons_self, List.count_eq_zero.mpr hd]
  | case4 b r hb ih =>
    rw [List.count_cons_of_ne hb]
    exact ih fun hm => hs (List.mem_cons_of_mem _ hm)

section
variable (hd : d ≠ stop)
include hd

theorem collapse_append_stop (l r : List α) :
    collapse d stop x (l ++ stop :: r) = collapse d stop x l ++ stop :: collapse d stop x r := by
  have hs : pastNext? d stop (stop :: r) = none := by
    rw [pastNext?, if_neg hd.symm, if_pos rfl]
  rw [collapse_append hs, collapse_cons_of_ne hd.symm]

/-- A pass works between the stops, so there it is enough to count. -/
theorem lone_collapse_of_parts
    (h : ∀ part, part <:+: l → stop ∉ part → (collapse d stop x part).count a ≤ 1) :
    Lone a stop (collapse d stop x l) := by
  intro w hw hs
  induction l using Text.mark_induction stop with
  | free l hl => exact (hw.sublist.count_le a).trans (h l List.infix_rfl hl)
  | cut l r hl ih =>
    rw [collapse_append_stop hd] at hw
    rcases (Text.infix_append_mark hs _ _).mp hw with hw | hw
    · exact (hw.sublist.count_le a).trans (h l (List.prefix_append ..).isInfix hl)
    · exact ih (fun part hp => h part (hp.trans (Text.suffix_append_cons l stop r).isInfix)) hw

theorem lone_collapse (hx : d ≠ x) (l : List α) : Lone d stop (collapse d stop x l) :=
  lone_collapse_of_parts hd fun _ _ hs => count_collapse_self_le hx.symm hs

theorem Lone.collapse (h : Lone a stop l) (ha : a ≠ x) : Lone a stop (collapse d stop x l) :=
  lone_collapse_of_parts hd fun part hp hs => (count_collapse_le ha part).trans (h part hp hs)

theorem Lone.collapse_eq (h : Lone d stop l) : Literal.collapse d stop x l = l := by
  fun_induction Literal.collapse d stop x l with
  | case1 => rfl
  | case2 r rest hn _ ih =>
    obtain ⟨body, -, hs, rfl⟩ := exists_body_of_pastNext? hn
    have hp : d :: body ++ [d] <:+: d :: (body ++ d :: rest) := ⟨[], rest, by simp⟩
    have hc : (d :: body ++ [d]).count d ≤ 1 := h _ hp (by simp [hs, hd.symm])
    rw [List.count_append, List.count_cons_self, List.count_singleton_self] at hc
    omega
  | case3 r hn ih | case4 b r hb ih => rw [ih (h.of_infix (List.suffix_cons ..).isInfix)]

end

end

/-! ## Pass after pass -/

section
variable {code : Literal → α} {stop x : α} {kinds : List Literal} (hs : ∀ k, code k ≠ stop)
include hs

theorem Lone.collapseAll {a : α} {l : List α} (h : Lone a stop l) (ha : a ≠ x) :
    Lone a stop (collapseAll code stop x kinds l) := by
  induction kinds generalizing l with
  | nil => exact h
  | cons k kinds ih => exact ih (h.collapse (hs k) ha)

theorem lone_collapseAll (hx : ∀ k, code k ≠ x) (l : List α) :
    ∀ k ∈ kinds, Lone (code k) stop (collapseAll code stop x kinds l) := by
  induction kinds generalizing l with
  | nil => exact List.forall_mem_nil _
  | cons k kinds ih =>
    have hk : Lone (code k) stop (collapse (code k) stop x l) := lone_collapse (hs k) (hx k) l
    exact List.forall_mem_cons.mpr ⟨hk.collapseAll hs (hx k), ih _⟩

theorem collapseAll_of_lone {l : List α} (h : ∀ k ∈ kinds, Lone (code k) stop l) :
    collapseAll code stop x kinds l = l := by
  induction kinds with
  | nil => rfl
  | cons k kinds ih =>
    rw [List.forall_mem_cons] at h
    rw [collapseAll, List.foldl_cons, h.1.collapse_eq (hs k)]
    exact ih h.2

end

end

end Literal

namespace Stripper

/-! ## What the passes leave -/

theorem lone_shrinkAll (s : Stripper) (t : Text) :
    ∀ k ∈ s.literals, Literal.Lone k.delimiter '\n' (s.shrinkAll t) := by
  rw [shrinkAll_eq_collapseAll]
  exact Literal.lone_collapseAll Literal.delimiter_ne_newline Literal.delimiter_ne_placeholder t

theorem shrinkAll_of_lone {s : Stripper} {t : Text}
    (h : ∀ k ∈ s.literals, Literal.Lone k.delimiter '\n' t) : s.shrinkAll t = t := by
  rw [shrinkAll_eq_collapseAll]
  exact Literal.collapseAll_of_lone Literal.delimiter_ne_newline h

section
variable {literals : List Literal}

theorem symbol_delimiter_ne_newline (k : Literal) : Symbol.char k.delimiter ≠ .char '\n' :=
  fun h => k.delimiter_ne_newline (Symbol.char.inj h)

theorem lone_passes (symbols : List Symbol) : ∀ k ∈ literals,
    Literal.Lone (.char k.delimiter) (.char '\n') (passes literals symbols) :=
  Literal.lone_collapseAll symbol_delimiter_ne_newline
    (fun k h => k.delimiter_ne_placeholder (Symbol.char.inj h)) symbols

theorem passes_of_lone {symbols : List Symbol}
    (h : ∀ k ∈ literals, Literal.Lone (.char k.delimiter) (.char '\n') symbols) :
    passes literals symbols = symbols :=
  Literal.collapseAll_of_lone symbol_delimiter_ne_newline h

end

/-! ## Cutting again -/

namespace Cut

variable (i : Nat) {ps : List Text} (h : ps ≠ [])
include h

theorem symbols_between_nil_cons :
    (between i ([] :: ps)).symbols = .token i :: (between i ps).symbols := by
  cases ps with
  | nil => exact absurd rfl h
  | cons p ps => rfl

theorem symbols_between_modifyHead (c : Char) :
    (between i (ps.modifyHead (c :: ·))).symbols = .char c :: (between i ps).symbols := by
  match ps with
  | [] => exact absurd rfl h
  | [p] => rfl
  | p :: q :: ps => rfl

end Cut

theorem cut_singleton (token line : Text) :
    cut [token] line = Cut.between 0 (Text.pieces token line) := rfl

section
variable {token : Text} (h : token ≠ [])
include h

theorem symbols_cut_nil : (cut [token] []).symbols = [] := by
  rw [cut_singleton, Text.pieces_nil h]
  rfl

theorem symbols_cut_token_append (rest : Text) :
    (cut [token] (token ++ rest)).symbols = .token 0 :: (cut [token] rest).symbols := by
  rw [cut_singleton, cut_singleton, Text.pieces_token_append h,
    Cut.symbols_between_nil_cons 0 (Text.pieces_ne_nil _ _)]

theorem symbols_cut_cons {c : Char} {r : Text} (hn : ¬ token <+: c :: r) :
    (cut [token] (c :: r)).symbols = .char c :: (cut [token] r).symbols := by
  rw [cut_singleton, cut_singleton, Text.pieces_cons h hn,
    Cut.symbols_between_modifyHead 0 (Text.pieces_ne_nil _ _)]

end

theorem eq_zero_of_token_mem_cut {token line : Text} {i : Nat}
    (h : .token i ∈ (cut [token] line).symbols) : i = 0 :=
  Nat.lt_one_iff.mp ((cutBelow_cut [token] line).below i h)

/-- No token starts at a character that belongs to none. -/
def Apart (token : Text) (symbols : List Symbol) : Prop :=
  ∀ c r, .char c :: r <:+ symbols → ¬ token <+: c :: write (tokenAt [token]) r

section
variable {token : Text} (h : token ≠ [])
include h

theorem apart_cut (line : Text) : Apart token (cut [token] line).symbols := by
  induction line using Text.token_induction h with
  | nil =>
    rw [symbols_cut_nil h]
    intro c r hs
    cases List.suffix_nil.mp hs
  | found rest ih =>
    rw [symbols_cut_token_append h]
    intro c r hs
    rcases List.suffix_cons_iff.mp hs with he | hs
    · cases he
    · exact ih c r hs
  | cons c r hn ih =>
    rw [symbols_cut_cons h hn]
    intro b r' hs
    rcases List.suffix_cons_iff.mp hs with he | hs
    · cases he
      rwa [(cutBelow_cut [token] r).written]
    · exact ih b r' hs

theorem symbols_cut_write {symbols : List Symbol} (ht : ∀ i, .token i ∈ symbols → i = 0)
    (ha : Apart token symbols) :
    (cut [token] (write (tokenAt [token]) symbols)).symbols = symbols := by
  induction symbols with
  | nil => exact symbols_cut_nil h
  | cons a r ih =>
    have hr := ih (fun i hi => ht i (List.mem_cons_of_mem _ hi))
      fun c r' hs => ha c r' (hs.trans (List.suffix_cons ..))
    rw [write_cons]
    cases a with
    | token i =>
      cases ht i (List.mem_cons_self ..)
      exact (symbols_cut_token_append h _).trans (congrArg (_ :: ·) hr)
    | char c => exact (symbols_cut_cons h (ha c r List.suffix_rfl)).trans (congrArg (_ :: ·) hr)

end

/-! ## Stripping again -/

theorem strip_strip_of_unguarded (kinds : List Literal) (line : Text) :
    strip ⟨kinds, []⟩ (strip ⟨kinds, []⟩ line) = strip ⟨kinds, []⟩ line := by
  rw [strip_of_unguarded rfl, strip_of_unguarded rfl]
  exact shrinkAll_of_lone (lone_shrinkAll _ line)

section
open Rules.Python (tripleQuote)

variable {s : Stripper} {line : Text}

theorem frame_not_mem_strip (hf : frame ∉ line) (h : Legible s.guarded line) :
    frame ∉ s.strip line := by
  rw [strip_eq_write_bare hf h]
  intro hm
  obtain ⟨a, ha, hs⟩ := List.mem_flatMap.mp hm
  exact frame_not_mem_bare hf a ha hs

section
variable (hk : .double ∈ s.literals)
include hk

theorem not_tripleQuote_infix_shrinkAll (t : Text) : ¬ tripleQuote <:+: s.shrinkAll t := by
  intro hi
  have hc : tripleQuote.count '"' ≤ 1 := lone_shrinkAll s t _ hk _ hi (by decide)
  exact absurd hc (by decide)

theorem apart_passes (line : Text) :
    Apart tripleQuote (passes s.literals (cut [tripleQuote] line).symbols) := by
  intro c r hs hp
  have hp : ['"', '"', '"'] <+: c :: write (tokenAt [tripleQuote]) r := hp
  obtain ⟨rfl, hr⟩ := List.cons_prefix_cons.mp hp
  cases r with
  | nil => exact absurd hr (by decide)
  | cons a r =>
    have hi : [.char '"', a] <:+: passes s.literals (cut [tripleQuote] line).symbols :=
      List.IsInfix.trans ⟨[], r, rfl⟩ hs.isInfix
    rw [write_cons] at hr
    cases a with
    | char c =>
      obtain ⟨rfl, -⟩ := List.cons_prefix_cons.mp hr
      have hone : [Symbol.char '"', .char '"'].count (.char '"') ≤ 1 :=
        lone_passes _ _ hk _ hi (by decide)
      exact absurd hone (by decide)
    | token i =>
      -- no pass removed anything between the two, so the cut had them next to each other
      obtain ⟨front, rest, he⟩ := infix_of_infix_passes (by simp [Literal.placeholder]) hi
      have hcut : .char '"' :: .token i :: rest <:+ (cut [tripleQuote] line).symbols :=
        ⟨front, by simpa using he⟩
      have hi : i = 0 :=
        eq_zero_of_token_mem_cut (hcut.mem (List.mem_cons_of_mem _ (List.mem_cons_self ..)))
      subst hi
      exact apart_cut (by decide) line _ _ hcut ⟨'"' :: write (tokenAt [tripleQuote]) rest, rfl⟩

variable (hg : s.guarded = [tripleQuote])
include hg

theorem strip_strip_of_frame (hf : frame ∈ line) : s.strip (s.strip line) = s.strip line := by
  have ht : ∀ token ∈ s.guarded, Text.occurs token (s.shrinkAll line) = false := by
    rw [hg, List.forall_mem_singleton, ← Bool.not_eq_true, Text.occurs_iff]
    exact not_tripleQuote_infix_shrinkAll hk line
  rw [strip_of_frame hf, strip_of_no_token ht]
  exact shrinkAll_of_lone (lone_shrinkAll s line)

theorem symbols_cut_write_bare (line : Text) :
    (cut s.guarded (write (tokenAt s.guarded) (s.bare line))).symbols = s.bare line := by
  have ht : ∀ i, .token i ∈ s.bare line → i = 0 := fun i hi =>
    eq_zero_of_token_mem_cut (hg ▸ token_mem_bare hi)
  have ha : Apart tripleQuote (s.bare line) := by
    rw [bare, hg]
    exact apart_passes hk line
  rw [hg]
  exact symbols_cut_write (by decide) ht ha

theorem strip_strip_of_not_frame (hf : frame ∉ line) : s.strip (s.strip line) = s.strip line := by
  have hl : ∀ t, Legible s.guarded t :=
    legible_of_length_le_one (by rw [hg]; exact Nat.le_refl 1)
  have hs : s.strip line = write (tokenAt s.guarded) (s.bare line) := strip_eq_write_bare hf (hl line)
  have hb : s.bare (s.strip line) = s.bare line := by
    rw [bare, hs, symbols_cut_write_bare hk hg]
    exact passes_of_lone (lone_passes _)
  rw [strip_eq_write_bare (frame_not_mem_strip hf (hl line)) (hl _), hb, hs]

end

end

/-- Between two newlines at most one delimiter of each kind is left, and a line that is stripped stays
as it is. It does so with guarded quotes too, whether or not masks can be told from the line. -/
theorem strip_strip :
    (∀ (kinds : List Literal) (line : Text),
      (∀ part ∈ Text.splitAt '\n' (strip ⟨kinds, []⟩ line), ∀ k ∈ kinds,
        part.count k.delimiter ≤ 1) ∧
      strip ⟨kinds, []⟩ (strip ⟨kinds, []⟩ line) = strip ⟨kinds, []⟩ line) ∧
    ∀ line, Rules.python.stripper.strip (Rules.python.stripper.strip line) =
      Rules.python.stripper.strip line := by
  constructor
  · intro kinds line
    refine ⟨fun part hp k hk => ?_, strip_strip_of_unguarded kinds line⟩
    rw [strip_of_unguarded rfl] at hp
    exact (lone_shrinkAll ⟨kinds, []⟩ line k hk).count_le_one hp
  · intro line
    have hk : .double ∈ Rules.python.stripper.literals := by decide
    by_cases hf : frame ∈ line
    · exact strip_strip_of_frame hk rfl hf
    · exact strip_strip_of_not_frame hk rfl hf

theorem strip_strip_sample :
    let pairs := "'\"'/\n\"'/".toList
    let line := "'a'\"\"\"\"b'c'".toList
    let framed := line ++ [frame]
    let strip := Rules.python.stripper.strip
    (∀ part ∈ Text.splitAt '\n' (Stripper.strip ⟨[.single, .double, .slash], []⟩ pairs),
      ∀ k ∈ [Literal.single, .double, .slash], part.count k.delimiter ≤ 1) ∧
    strip line = "X\"\"\"\"bX".toList ∧ strip (strip line) = strip line ∧
    strip framed = "XXXbX".toList ++ [frame] ∧ strip (strip framed) = strip framed := by
  intro pairs line framed strip
  have hl : strip line = "X\"\"\"\"bX".toList := by decide
  have hf : strip framed = "XXXbX".toList ++ [frame] := by decide
  exact ⟨(strip_strip.1 _ pairs).1, hl, strip_strip.2 line, hf, strip_strip.2 framed⟩

end Stripper

end LineCensus
