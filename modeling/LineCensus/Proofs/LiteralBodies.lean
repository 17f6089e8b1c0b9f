import LineCensus.Line
import LineCensus.Proofs.Shrinking
import Mathlib.Data.List.Forall2

/-!
# Bodies of literals

A line of plain text and closed literals shrinks to its plain text with one placeholder for each
literal, though a body may hold delimiters that are looked for later than its own. So two lines that
differ in nothing but bodies are classified alike (`strip_line_and_classify_alike`).
-/

namespace LineCensus

theorem Literal.delimiter_injective {k l : Literal} (h : k.delimiter = l.delimiter) : k = l := by
  cases k <;> cases l <;> simp_all [Literal.delimiter]

inductive Part
  | plain (t : Text)
  | literal (kind : Literal) (body : Text)

namespace Part

def text : Part → Text
  | plain t => t
  | literal kind body => kind.delimiter :: body ++ [kind.delimiter]

def shrunk : Part → Text
  | plain t => t
  | literal _ _ => [Literal.placeholder]

def line (parts : List Part) : Text :=
  parts.flatMap text

/-- Plain text holds no delimiter. A body holds no newline and no delimiter that is looked for as
early as its own. -/
def Fits (kinds : List Literal) : Part → Prop
  | plain t => ∀ k ∈ kinds, k.delimiter ∉ t
  | literal kind body => kind ∈ kinds ∧ '\n' ∉ body ∧
      ∀ k ∈ kinds, kinds.idxOf k ≤ kinds.idxOf kind → k.delimiter ∉ body

instance (kinds : List Literal) : (p : Part) → Decidable (p.Fits kinds)
  | plain _ => inferInstanceAs (Decidable (∀ k ∈ kinds, _))
  | literal _ _ => inferInstanceAs (Decidable (_ ∧ _ ∧ ∀ k ∈ kinds, _))

inductive Alike : Part → Part → Prop
  | plain (t : Text) : Alike (plain t) (plain t)
  | literal (kind : Literal) (body body' : Text) : Alike (literal kind body) (literal kind body')

/-! ## One pass -/

def pass (k : Literal) : Part → Part
  | plain t => plain t
  | literal kind body => if kind = k then plain [Literal.placeholder] else literal kind body

theorem shrunk_pass (k : Literal) (p : Part) : (p.pass k).shrunk = p.shrunk := by
  cases p with
  | plain t => rfl
  | literal kind body =>
    rw [pass]
    split <;> rfl

section
variable {k : Literal} {kinds : List Literal}

theorem not_mem_text_of_fits {kind : Literal} {body : Text} (hk : kind ≠ k)
    (h : (literal kind body).Fits (k :: kinds)) : k.delimiter ∉ (literal kind body).text := by
  have hb : k.delimiter ∉ body := h.2.2 k (List.mem_cons_self ..) (by simp)
  have hd : k.delimiter ≠ kind.delimiter := fun e => hk (Literal.delimiter_injective e).symm
  rw [text, List.mem_append, List.mem_cons, List.mem_singleton]
  rintro ((e | hm) | e)
  · exact hd e
  · exact hb hm
  · exact hd e

theorem fits_pass {p : Part} (h : p.Fits (k :: kinds)) : (p.pass k).Fits kinds := by
  cases p with
  | plain t => exact fun l hl => h l (List.mem_cons_of_mem _ hl)
  | literal kind body =>
    rw [pass]
    split
    · intro l _ hm
      exact l.delimiter_ne_placeholder (List.mem_singleton.mp hm)
    · next hk =>
      obtain ⟨hmem, hn, hb⟩ := h
      refine ⟨(List.mem_cons.mp hmem).resolve_left hk, hn, fun l hl hle => ?_⟩
      apply hb l (List.mem_cons_of_mem _ hl)
      rw [List.idxOf_cons_ne _ (Ne.symm hk)]
      by_cases hlk : l = k
      · rw [hlk, List.idxOf_cons_self]; omega
      · rw [List.idxOf_cons_ne _ (Ne.symm hlk)]; omega

/-- The nearest delimiter behind the first one of a literal is its own last one. -/
theorem shrink_line {parts : List Part} (h : ∀ p ∈ parts, p.Fits (k :: kinds)) :
    Literal.shrink k.delimiter (line parts) = line (parts.map (pass k)) := by
  rw [Literal.shrink_eq_collapse]
  induction parts with
  | nil => exact Literal.collapse_nil
  | cons p parts ih =>
    have hp := h p (List.mem_cons_self ..)
    have hr := ih fun q hq => h q (List.mem_cons_of_mem _ hq)
    have hl : line (p :: parts) = p.text ++ line parts := rfl
    have hl' : line ((p :: parts).map (pass k)) = (p.pass k).text ++ line (parts.map (pass k)) := rfl
    rw [hl, hl', ← hr]
    cases p with
    | plain t => exact Literal.collapse_append_of_not_mem (hp k (List.mem_cons_self ..)) _
    | literal kind body =>
      by_cases hk : kind = k
      · subst hk
        have hb : kind.delimiter ∉ body := hp.2.2 kind (List.mem_cons_self ..) (Nat.le_refl _)
        have hc : Literal.pastNext? kind.delimiter '\n' (body ++ kind.delimiter :: line parts) =
            some (line parts) := by
          rw [Literal.pastNext?_append_of_not_mem hb hp.2.1, Literal.pastNext?, if_pos rfl]
        rw [pass, if_pos rfl, text, text, List.append_assoc]
        exact Literal.collapse_of_closed hc
      · rw [pass, if_neg hk]
        exact Literal.collapse_append_of_not_mem (not_mem_text_of_fits hk hp) _

end

/-! ## All passes -/

theorem shrinkAll_line (s : Stripper) {parts : List Part}
    (h : ∀ p ∈ parts, p.Fits s.literals) : s.shrinkAll (line parts) = parts.flatMap shrunk := by
  unfold Stripper.shrinkAll
  generalize s.literals = kinds at h
  induction kinds generalizing parts with
  | nil =>
    refine List.flatMap_congr fun p hp => ?_
    cases p with
    | plain t => rfl
    | literal kind body => exact absurd (h _ hp).1 List.not_mem_nil
  | cons k kinds ih =>
    have hf : ∀ p ∈ parts.map (pass k), p.Fits kinds := by
      intro p hp
      obtain ⟨q, hq, rfl⟩ := List.mem_map.mp hp
      exact fits_pass (h q hq)
    rw [List.foldl_cons, shrink_line h, ih hf, List.flatMap_map]
    exact List.flatMap_congr fun p _ => shrunk_pass k p

theorem flatMap_shrunk_of_alike {parts parts' : List Part} (h : List.Forall₂ Alike parts parts') :
    parts.flatMap shrunk = parts'.flatMap shrunk := by
  induction h with
  | nil => rfl
  | cons hp _ ih =>
    rw [List.flatMap_cons, List.flatMap_cons, ih]
    cases hp <;> rfl

theorem strip_rules (l : Language) {parts : List Part}
    (h : ∀ p ∈ parts, p.Fits l.rules.stripper.literals)
    (hq : l = .python → Text.occurs Rules.Python.tripleQuote (line parts) = false) :
    l.rules.stripper.strip (line parts) = parts.flatMap shrunk := by
  rw [Stripper.strip_of_no_token, shrinkAll_line _ h]
  cases l with
  | python => exact List.forall_mem_singleton.mpr (hq rfl)
  | ruby | brace | basic => exact List.forall_mem_nil _

/-- Closed literals go whole, each for one placeholder, and everything else stays. So bodies decide
neither the kind of a line nor what is open behind it. -/
theorem strip_line_and_classify_alike :
    (∀ (kinds : List Literal) (parts : List Part), (∀ p ∈ parts, p.Fits kinds) →
      Stripper.strip ⟨kinds, []⟩ (line parts) = parts.flatMap shrunk) ∧
    ∀ (l : Language) (policy : BlankInBlock) (inside : Bool) (parts parts' : List Part),
      (∀ p ∈ parts, p.Fits l.rules.stripper.literals) →
      (∀ p ∈ parts', p.Fits l.rules.stripper.literals) →
      List.Forall₂ Alike parts parts' →
      (l = .python → Text.occurs Rules.Python.tripleQuote (line parts) = false ∧
        Text.occurs Rules.Python.tripleQuote (line parts') = false) →
      l.rules.classify policy inside (line parts) =
        l.rules.classify policy inside (line parts') := by
  constructor
  · intro kinds parts h
    rw [Stripper.strip_of_unguarded rfl]
    exact shrinkAll_line ⟨kinds, []⟩ h
  · intro l policy inside parts parts' h h' ha hq
    have hs : l.rules.stripper.strip (line parts) = l.rules.stripper.strip (line parts') := by
      rw [strip_rules l h fun e => (hq e).1, strip_rules l h' fun e => (hq e).2,
        flatMap_shrunk_of_alike ha]
    rw [Rules.classify, hs, Rules.classify]

def sampleParts : List Part :=
  [.plain "x = ".toList, .literal .single "say \"#/*".toList, .literal .double "=end / #".toList,
    .plain " + ".toList, .literal .slash "".toList, .plain " # y".toList]

def sampleParts' : List Part :=
  [.plain "x = ".toList, .literal .single "".toList, .literal .double "//".toList,
    .plain " + ".toList, .literal .slash "# *".toList, .plain " # y".toList]

theorem strip_line_and_classify_alike_sample :
    (∀ p ∈ sampleParts, p.Fits [.single, .double, .slash]) ∧
      (∀ p ∈ sampleParts', p.Fits [.single, .double, .slash]) ∧
      List.Forall₂ Alike sampleParts sampleParts' ∧
      Stripper.strip ⟨[.single, .double, .slash], []⟩ (line sampleParts) = "x = XX + X # y".toList ∧
      Rules.ruby.classify .blank false (line sampleParts) =
        Rules.ruby.classify .blank false (line sampleParts') := by
  have h : ∀ p ∈ sampleParts, p.Fits [.single, .double, .slash] := by decide
  have h' : ∀ p ∈ sampleParts', p.Fits [.single, .double, .slash] := by decide
  have ha : List.Forall₂ Alike sampleParts sampleParts' :=
    .cons (.plain _) (.cons (.literal ..) (.cons (.literal ..) (.cons (.plain _)
      (.cons (.literal ..) (.cons (.plain _) .nil)))))
  exact ⟨h, h', ha, strip_line_and_classify_alike.1 _ _ h,
    strip_line_and_classify_alike.2 .ruby .blank false _ _ h h' ha (fun e => by cases e)⟩

end Part

end LineCensus
