import LineCensus.FileTree
import LineCensus.Proofs.Decoding
import LineCensus.Proofs.TextSearch

/-!
# Paths shown as text

A path that is text is shown as it is. What else a path holds is replaced within its components, so
that paths with the same components are shown by texts with the same components
(`components_shown`).
-/

namespace LineCensus

namespace Utf8

theorem encode_append (s t : Text) : encode (s ++ t) = encode s ++ encode t :=
  List.flatMap_append

theorem encode_cons (c : Char) (t : Text) : encode (c :: t) = encodeChar c ++ encode t :=
  List.flatMap_cons

theorem encodeChar_ascii {a : UInt8} (ha : a.toNat < 0x80) : encodeChar (ascii a) = [a] := by
  have hn : (ascii a).toNat = a.toNat := toNat_charOfNat (Or.inl (by omega))
  unfold encodeChar
  rw [hn]
  dsimp only
  rw [if_pos ha, UInt8.ofNat_toNat]

theorem ofNat_ne {a : UInt8} (ha : a.toNat < 0x80) {n : Nat} (hl : 0x80 ≤ n) (hn : n < 0x100) :
    a ≠ UInt8.ofNat n := by
  rintro rfl
  rw [toNat_ofNat hn] at ha
  omega

theorem eq_ascii_of_mem_encodeChar {a : UInt8} (ha : a.toNat < 0x80) {c : Char}
    (h : a ∈ encodeChar c) : c = ascii a := by
  have hv := toNat_cases c
  have hno : ∀ n, 0x80 ≤ n → n < 0x100 → a ≠ UInt8.ofNat n := fun n => ofNat_ne ha
  unfold encodeChar at h
  dsimp only at h
  split at h
  · have he : a.toNat = c.toNat := by rw [List.mem_singleton.mp h, toNat_ofNat (by omega)]
    rw [ascii, he, Char.ofNat_toNat]
  · exfalso
    -- every byte of the others is above the ASCII ones
    split at h
    · simp (disch := omega) only [List.mem_cons, List.not_mem_nil, or_self, hno] at h
    · split at h
      · simp (disch := omega) only [List.mem_cons, List.not_mem_nil, or_self, hno] at h
      · simp (disch := omega) only [List.mem_cons, List.not_mem_nil, or_self, hno] at h

theorem ascii_not_mem_encode {a : UInt8} (ha : a.toNat < 0x80) {t : Text} (h : ascii a ∉ t) :
    a ∉ encode t := by
  intro hm
  obtain ⟨c, hc, hm⟩ := List.mem_flatMap.mp hm
  exact h (eq_ascii_of_mem_encodeChar ha hm ▸ hc)

end Utf8

namespace Path

theorem shown_ofText (t : Text) : shown (ofText t) = t :=
  Utf8.decode_encode t

theorem ofText_injective : Function.Injective ofText := by
  intro s t h
  rw [← shown_ofText s, h, shown_ofText]

/-! ## Components of what is shown -/

/-- Bytes with U+FFFD for what is no text. -/
def replaced (bytes : Bytes) : Bytes :=
  ofText (shown bytes)

def Component.replaced : Component → Component
  | name n => name (Path.replaced n)
  | c => c

theorem replaced_append_ascii {a : UInt8} (ha : a.toNat < 0x80) (front rest : Bytes) :
    replaced (front ++ a :: rest) = replaced front ++ a :: replaced rest := by
  unfold replaced shown ofText
  rw [Utf8.decode_append_ascii ha, Utf8.encode_append, Utf8.encode_cons, Utf8.encodeChar_ascii ha]
  rfl

theorem replaced_eq_nil_iff {bytes : Bytes} : replaced bytes = [] ↔ bytes = [] := by
  constructor
  · intro h
    refine Classical.byContradiction fun hne => Utf8.decode_ne_nil hne ?_
    exact ofText_injective h
  · rintro rfl
    rfl

theorem replaced_eq_ascii_cons_iff {a : UInt8} (h0 : a.toNat ≠ 0) (ha : a.toNat < 0x80)
    {bytes : Bytes} (rest : Bytes) : replaced bytes = a :: replaced rest ↔
      ∃ bytes', bytes = a :: bytes' ∧ replaced bytes' = replaced rest := by
  have hc : a :: replaced rest = ofText (Utf8.ascii a :: shown rest) := by
    rw [ofText, Utf8.encode_cons, Utf8.encodeChar_ascii ha]
    rfl
  constructor
  · intro h
    rw [hc] at h
    obtain ⟨bytes', rfl, hb⟩ :=
      (Utf8.decode_eq_ascii_cons_iff h0 ha).mp (ofText_injective h)
    exact ⟨bytes', rfl, congrArg ofText hb⟩
  · rintro ⟨bytes', rfl, hb⟩
    rw [← hb]
    exact replaced_append_ascii ha [] bytes'

theorem replaced_eq_dot_iff {bytes : Bytes} : replaced bytes = [dot] ↔ bytes = [dot] := by
  refine (replaced_eq_ascii_cons_iff (by decide) (by decide) []).trans ?_
  simp [show replaced [] = [] from rfl, replaced_eq_nil_iff]

theorem replaced_eq_dots_iff {bytes : Bytes} : replaced bytes = [dot, dot] ↔ bytes = [dot, dot] := by
  refine (replaced_eq_ascii_cons_iff (by decide) (by decide) [dot]).trans ?_
  simp [show replaced [dot] = [dot] from rfl, replaced_eq_dot_iff]

theorem slash_not_mem_replaced {bytes : Bytes} (h : slash ∉ bytes) : slash ∉ replaced bytes := by
  have hn : Utf8.ascii slash ∉ shown bytes := Utf8.ascii_not_mem_decode (by decide) (by decide) h
  exact Utf8.ascii_not_mem_encode (by decide) hn

theorem segments_replaced (path : Path) :
    segments (replaced path) = (segments path).map replaced := by
  unfold segments
  induction path using Text.mark_induction slash with
  | free l h => rw [Text.splitAt_free h, Text.splitAt_free (slash_not_mem_replaced h)]; rfl
  | cut l r h ih =>
    rw [Text.splitAt_cut h, replaced_append_ascii (by decide),
      Text.splitAt_cut (slash_not_mem_replaced h), ih, List.map_cons]

theorem component?_replaced (segment : Bytes) :
    component? (replaced segment) = (component? segment).map Component.replaced := by
  unfold component?
  simp only [replaced_eq_nil_iff, replaced_eq_dot_iff, replaced_eq_dots_iff]
  split
  · rfl
  · split <;> rfl

theorem start_replaced (path : Path) (first : Bytes) :
    start (replaced path) (replaced first) = (start path first).map Component.replaced := by
  unfold start
  simp only [replaced_eq_nil_iff, replaced_eq_dot_iff, component?_replaced]
  split
  · rfl
  · split
    · rfl
    · split
      · rfl
      · exact Option.toList_map

theorem components_replaced (path : Path) :
    components (replaced path) = (components path).map Component.replaced := by
  unfold components
  rw [segments_replaced]
  cases segments path with
  | nil => rfl
  | cons first rest =>
    rw [List.map_cons]
    dsimp only
    rw [start_replaced, List.map_append, List.filterMap_map, List.map_filterMap]
    simp only [Function.comp_def, component?_replaced]

theorem components_shown {p q : Path} (h : components p = components q) :
    components (ofText (shown p)) = components (ofText (shown q)) := by
  rw [← replaced, ← replaced, components_replaced, components_replaced, h]

end Path

/-! ## Hidden names -/

/-- A name is taken for a hidden one if it is a text that starts with a dot. -/
theorem Name.hidden_iff (n : Name) :
    n.hidden = true ↔ ∃ t, n.bytes = Path.ofText ('.' :: t) := by
  unfold hidden
  cases hd : Utf8.text? n.bytes with
  | none =>
    refine iff_of_false (by simp) ?_
    rintro ⟨t, ht⟩
    rw [Utf8.text?_eq_some_iff.mpr ht.symm] at hd
    cases hd
  | some s =>
    have hs := Utf8.text?_eq_some_iff.mp hd
    rw [Option.getD_some, decide_eq_true_iff, List.head?_eq_some_iff]
    constructor
    · rintro ⟨t, rfl⟩
      exact ⟨t, hs.symm⟩
    · rintro ⟨t, ht⟩
      exact ⟨t, Path.ofText_injective (hs.trans ht)⟩

/-- For a name that is text, the first byte tells. -/
theorem Name.hidden_iff_head? {n : Name} {t : Text} (h : n.bytes = Path.ofText t) :
    n.hidden = true ↔ n.bytes.head? = some Path.dot := by
  rw [hidden_iff]
  constructor
  · intro ⟨s, hs⟩
    rw [hs]
    rfl
  · intro hd
    obtain ⟨r, hr⟩ := List.head?_eq_some_iff.mp hd
    have ht : t = '.' :: Utf8.decode r := by
      rw [← Path.shown_ofText t, ← h, hr]
      exact Utf8.decode_append_ascii (by decide) [] r
    exact ⟨_, by rw [h, ht]⟩

end LineCensus
