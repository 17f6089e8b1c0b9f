import LineCensus.Literal
import LineCensus.Proofs.TextSearch
import Mathlib.Data.List.Induction

/-!
# Lines cut at tokens

A line is cut at one guarded token after the other, each in the parts that the earlier ones left. The
result is a sequence of symbols, the tokens by their numbers, which gives back the line when it is
written out (`CutBelow.written`) and the line with masks in place of tokens where no token stands in
a mask (`Cut.replace_write`).
-/

namespace LineCensus

/-- Two folds over one numbered list are related behind it if every step keeps them so. -/
theorem foldl_zipIdx_rel {α β γ : Type} {f : β → α × Nat → β} {g : γ → α × Nat → γ}
    {motive : Nat → β → γ → Prop} (l : List α) {b : β} {c : γ} (start : motive 0 b c)
    (step : ∀ a i, l[i]? = some a → ∀ b c, motive i b c →
      motive (i + 1) (f b (a, i)) (g c (a, i))) :
    motive l.length (l.zipIdx.foldl f b) (l.zipIdx.foldl g c) := by
  induction l using List.reverseRecOn with
  | nil => exact start
  | append_singleton l a ih =>
    have hl : motive l.length (l.zipIdx.foldl f b) (l.zipIdx.foldl g c) := by
      refine ih fun a' i hi => step a' i ?_
      rw [List.getElem?_append_left (List.getElem?_eq_some_iff.mp hi).1, hi]
    rw [List.zipIdx_append, List.foldl_append, List.foldl_append, List.length_append, Nat.zero_add]
    exact step a l.length List.getElem?_concat_length _ _ hl

namespace Stripper

theorem mask_append (i : Nat) (t : Text) :
    mask i ++ t = frame :: (Text.decimal i ++ frame :: t) := by
  simp [mask]

/-! ## Lines in symbols -/

/-- A token, known by its number, or a character that belongs to none. -/
inductive Symbol
  | token (i : Nat)
  | char (c : Char)
  deriving DecidableEq

def Symbol.spell (spelling : Nat → Text) : Symbol → Text
  | token i => spelling i
  | char c => [c]

def write (spelling : Nat → Text) (symbols : List Symbol) : Text :=
  symbols.flatMap (Symbol.spell spelling)

section
variable (spelling : Nat → Text)

theorem write_cons (a : Symbol) (symbols : List Symbol) :
    write spelling (a :: symbols) = a.spell spelling ++ write spelling symbols :=
  List.flatMap_cons

theorem write_append (s t : List Symbol) :
    write spelling (s ++ t) = write spelling s ++ write spelling t :=
  List.flatMap_append

theorem write_chars (t : Text) : write spelling (t.map .char) = t := by
  rw [write, List.flatMap_map]
  exact List.flatMap_singleton' t

variable {spelling}

theorem write_congr {spelling' : Nat → Text} {symbols : List Symbol}
    (h : ∀ i, .token i ∈ symbols → spelling i = spelling' i) :
    write spelling symbols = write spelling' symbols := by
  induction symbols with
  | nil => rfl
  | cons a symbols ih =>
    rw [write_cons, write_cons, ih fun i hi => h i (List.mem_cons_of_mem _ hi)]
    cases a with
    | token i => rw [Symbol.spell, Symbol.spell, h i (List.mem_cons_self ..)]
    | char c => rfl

theorem infix_write {w symbols : List Symbol} (h : w <:+: symbols) :
    write spelling w <:+: write spelling symbols :=
  Text.infix_flatMap h _

theorem infix_write_of_mem {a : Symbol} {symbols : List Symbol} (h : a ∈ symbols) :
    a.spell spelling <:+: write spelling symbols := by
  obtain ⟨s, t, rfl⟩ := List.append_of_mem h
  rw [write_append, write_cons]
  exact ⟨write spelling s, write spelling t, List.append_assoc ..⟩

end

/-! ## Cutting at tokens -/

/-- A line with its tokens cut out: one part, or a part, the token behind it and what follows. -/
inductive Cut
  | whole (part : Text)
  | before (part : Text) (i : Nat) (rest : Cut)

namespace Cut

def parts : Cut → List Text
  | whole part => [part]
  | before part _ rest => part :: rest.parts

def symbols : Cut → List Symbol
  | whole part => part.map .char
  | before part i rest => part.map .char ++ .token i :: rest.symbols

def between (i : Nat) : List Text → Cut
  | [] => whole []
  | [part] => whole part
  | part :: next :: parts => before part i (between i (next :: parts))

def append : Cut → Nat → Cut → Cut
  | whole part, i, c => before part i c
  | before part j rest, i, c => before part j (rest.append i c)

def cutAt (token : Text) (i : Nat) : Cut → Cut
  | whole part => between i (Text.pieces token part)
  | before part j rest => (between i (Text.pieces token part)).append j (rest.cutAt token i)

theorem char_mem_symbols {c : Char} {k : Cut} (h : .char c ∈ k.symbols) :
    ∃ part ∈ k.parts, c ∈ part := by
  induction k with
  | whole part =>
    obtain ⟨_, hc, ⟨⟩⟩ := List.mem_map.mp h
    exact ⟨part, List.mem_singleton_self part, hc⟩
  | before part i rest ih =>
    rcases List.mem_append.mp h with h | h
    · obtain ⟨_, hc, ⟨⟩⟩ := List.mem_map.mp h
      exact ⟨part, List.mem_cons_self .., hc⟩
    · obtain ⟨p, hp, hc⟩ := ih ((List.mem_cons.mp h).resolve_left (by simp))
      exact ⟨p, List.mem_cons_of_mem _ hp, hc⟩

theorem parts_between (i : Nat) : ∀ {ps : List Text}, ps ≠ [] → (between i ps).parts = ps
  | [], h => absurd rfl h
  | [_], _ => rfl
  | p :: q :: ps, _ => congrArg (p :: ·) (parts_between i (List.cons_ne_nil q ps))

theorem parts_append (a : Cut) (i : Nat) (b : Cut) :
    (a.append i b).parts = a.parts ++ b.parts := by
  induction a with
  | whole part => rfl
  | before part j rest ih => exact congrArg (part :: ·) ih

theorem parts_cutAt (token : Text) (i : Nat) (k : Cut) :
    (k.cutAt token i).parts = k.parts.flatMap (Text.pieces token) := by
  induction k with
  | whole part =>
    rw [cutAt, parts_between i (Text.pieces_ne_nil _ _), parts, List.flatMap_singleton]
  | before part j rest ih =>
    rw [cutAt, parts_append, parts_between i (Text.pieces_ne_nil _ _), ih, parts, List.flatMap_cons]

theorem token_mem_between {m i : Nat} : ∀ {ps : List Text},
    .token m ∈ (between i ps).symbols → m = i
  | [], h => by cases h
  | [_], h => by obtain ⟨_, _, ⟨⟩⟩ := List.mem_map.mp h
  | _ :: q :: ps, h => by
    rcases List.mem_append.mp h with h | h
    · obtain ⟨_, _, ⟨⟩⟩ := List.mem_map.mp h
    rcases List.mem_cons.mp h with h | h
    · cases h; rfl
    · exact token_mem_between h

theorem symbols_append (a : Cut) (i : Nat) (b : Cut) :
    (a.append i b).symbols = a.symbols ++ .token i :: b.symbols := by
  induction a with
  | whole part => rfl
  | before part j rest ih => rw [append, symbols, ih, symbols, List.append_assoc, List.cons_append]

theorem token_mem_cutAt {token : Text} {m i : Nat} {k : Cut}
    (h : .token m ∈ (k.cutAt token i).symbols) : m = i ∨ .token m ∈ k.symbols := by
  induction k with
  | whole part => exact Or.inl (token_mem_between h)
  | before part j rest ih =>
    rw [cutAt, symbols_append] at h
    rcases List.mem_append.mp h with h | h
    · exact Or.inl (token_mem_between h)
    rcases List.mem_cons.mp h with h | h
    · rw [h]; exact Or.inr (List.mem_append_right _ (List.mem_cons_self ..))
    · exact (ih h).imp_right fun hm => List.mem_append_right _ (List.mem_cons_of_mem _ hm)

section
variable {spelling : Nat → Text}

theorem write_between (i : Nat) : ∀ {ps : List Text}, ps ≠ [] →
    write spelling (between i ps).symbols = (spelling i).intercalate ps
  | [], h => absurd rfl h
  | [p], _ => by rw [between, symbols, write_chars, List.intercalate_singleton]
  | p :: q :: ps, _ => by
    rw [between, symbols, write_append, write_chars, write_cons,
      write_between i (List.cons_ne_nil q ps), List.intercalate_cons_cons, List.append_assoc]
    rfl

theorem write_pieces (token : Text) (i : Nat) (t : Text) :
    write spelling (between i (Text.pieces token t)).symbols =
      Text.replace token (spelling i) t :=
  write_between i (Text.pieces_ne_nil _ _)

theorem write_cutAt {token : Text} {i : Nat} (h : spelling i = token) (k : Cut) :
    write spelling (k.cutAt token i).symbols = write spelling k.symbols := by
  induction k with
  | whole part => rw [cutAt, write_pieces, h, Text.replace_self, symbols, write_chars]
  | before part j rest ih =>
    rw [cutAt, symbols_append, write_append, write_pieces, h, Text.replace_self, write_cons, ih,
      symbols, write_append, write_chars, write_cons]

end

/-- A token that holds no frame and stands in no mask is found in the parts alone. -/
theorem replace_write {token : Text} (i : Nat) {k : Cut}
    (h : ∀ m, .token m ∈ k.symbols → frame ∉ token ∧ Text.occurs token (Text.decimal m) = false) :
    Text.replace token (mask i) (write mask k.symbols) =
      write mask (k.cutAt token i).symbols := by
  induction k with
  | whole part => rw [symbols, write_chars, cutAt, write_pieces]
  | before part m rest ih =>
    have hm : .token m ∈ (before part m rest).symbols :=
      List.mem_append_right _ (List.mem_cons_self ..)
    obtain ⟨hf, hd⟩ := h m hm
    have ht : token ≠ [] := by
      rintro rfl
      rw [Text.occurs_iff.mpr List.nil_infix] at hd
      cases hd
    have hr := ih fun j hj => h j (List.mem_append_right _ (List.mem_cons_of_mem _ hj))
    rw [cutAt, symbols_append, write_append, write_pieces, write_cons, ← hr, symbols, write_append,
      write_chars, write_cons, Symbol.spell, mask_append, mask_append,
      Text.replace_append_mark _ ht hf, Text.replace_append_mark _ ht hf,
      Text.replace_of_not_occurs _ hd]

end Cut

section
variable (guarded : List Text) (line : Text)

/-- What is left of a line cut at all tokens, one token after the other. -/
def parts : List Text :=
  guarded.foldl (fun ps token => ps.flatMap (Text.pieces token)) [line]

def cut : Cut :=
  guarded.zipIdx.foldl (fun k g => k.cutAt g.1 g.2) (.whole line)

def tokenAt (i : Nat) : Text :=
  guarded[i]?.getD []

end

theorem parts_cut (guarded : List Text) (line : Text) :
    (cut guarded line).parts = parts guarded line := by
  have hp : guarded.zipIdx.foldl (fun ps g => ps.flatMap (Text.pieces g.1)) [line] =
      parts guarded line := by
    rw [parts, ← List.zipIdx_map_fst 0 guarded, List.foldl_map, List.zipIdx_map_fst]
  rw [← hp]
  exact foldl_zipIdx_rel (motive := fun _ (k : Cut) ps => k.parts = ps) guarded rfl
    fun token i _ k ps h => by rw [Cut.parts_cutAt, h]

/-- The line is cut at tokens below `n`. -/
structure CutBelow (guarded : List Text) (line : Text) (n : Nat) (k : Cut) : Prop where
  written : write (tokenAt guarded) k.symbols = line
  below : ∀ m, .token m ∈ k.symbols → m < n

section
variable {guarded : List Text} {line : Text}

theorem tokenAt_of_getElem? {token : Text} {i : Nat} (h : guarded[i]? = some token) :
    tokenAt guarded i = token := by
  rw [tokenAt, h]; rfl

theorem CutBelow.whole : CutBelow guarded line 0 (.whole line) where
  written := write_chars _ line
  below m h := by obtain ⟨_, _, ⟨⟩⟩ := List.mem_map.mp h

theorem CutBelow.cutAt {token : Text} {i : Nat} {k : Cut} (h : CutBelow guarded line i k)
    (hi : guarded[i]? = some token) : CutBelow guarded line (i + 1) (k.cutAt token i) where
  written := by rw [Cut.write_cutAt (tokenAt_of_getElem? hi), h.written]
  below m hm := by
    rcases Cut.token_mem_cutAt hm with rfl | hm
    · exact Nat.lt_succ_self m
    · exact Nat.lt_succ_of_lt (h.below m hm)

theorem CutBelow.infix_line {n m : Nat} {k : Cut} (h : CutBelow guarded line n k)
    (hm : .token m ∈ k.symbols) : tokenAt guarded m <:+: line := by
  have hw : (Symbol.token m).spell (tokenAt guarded) <:+: write (tokenAt guarded) k.symbols :=
    infix_write_of_mem hm
  rwa [h.written] at hw

end

end Stripper

end LineCensus
