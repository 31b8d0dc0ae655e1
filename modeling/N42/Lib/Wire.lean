import Mathlib

/-!
# (key: wire) How a stream of concatenated messages cuts

An encoder that writes a message as its fields one after the other, each in a prefix-free code
(`FieldCoding`), in strictly increasing order of their keys, and that always writes one field of
key at most `lo` and one of key at least `hi > lo`, writes every message as a BLOCK of fields; a
stream of such messages has only one cut into messages.

* `flatten_inj_of_blocks`   a list cut into blocks, each with strictly increasing keys, its
                          first key at most `lo` and its last at least `hi > lo`, has only
                          that cut;
* `isBlock_of_mem`        sorted fields with one of key `lo` and one of key `hi` form a block;
* `FieldCoding`, `FieldCoding.encodeFields_inj`   a prefix-free code of non-empty fields, and
                          the injectivity of the concatenation of fields;
* `FieldCoding.encodeFields_flatten_inj`   so concatenated messages of that shape give back
                          each message.
-/

namespace Wire

/-! ## blocks -/

section Blocks

variable {α : Type*} (key : α → ℕ) (lo hi : ℕ)

/-- a block: keys strictly increasing, the first at most `lo`, the last at least `hi` -/
structure IsBlock (b : List α) : Prop where
  sorted : b.Pairwise fun x y => key x < key y
  head_le : ∀ x ∈ b.head?, key x ≤ lo
  le_last : ∀ x ∈ b.getLast?, hi ≤ key x
  ne_nil : b ≠ []

variable {key lo hi}

theorem head_flatten_le {bs : List (List α)} (hb : ∀ b ∈ bs, IsBlock key lo hi b) :
    ∀ x ∈ bs.flatten.head?, key x ≤ lo := by
  intro x hx
  cases bs with
  | nil => simp at hx
  | cons b bs =>
    have hb₀ := hb b (List.mem_cons_self ..)
    obtain ⟨y, t, rfl⟩ := List.exists_cons_of_ne_nil hb₀.ne_nil
    simp only [List.flatten_cons, List.cons_append, List.head?_cons, Option.mem_def,
      Option.some.injEq] at hx
    subst hx
    exact hb₀.head_le _ rfl

/-- nothing can follow a block inside a block, if it starts at most at `lo` -/
theorem nil_of_isBlock_append (hlh : lo < hi) {b a : List α} (hb : IsBlock key lo hi b)
    (hba : (b ++ a).Pairwise fun x y => key x < key y) (ha : ∀ x ∈ a.head?, key x ≤ lo) :
    a = [] := by
  cases a with
  | nil => rfl
  | cons x t =>
    obtain ⟨y, hy⟩ := Option.ne_none_iff_exists'.mp (List.getLast?_eq_none_iff.not.mpr hb.ne_nil)
    have hyx : key y < key x :=
      (List.pairwise_append.mp hba).2.2 y (List.mem_of_getLast? hy) x (List.mem_cons_self ..)
    have h₁ := hb.le_last y hy
    have h₂ := ha x rfl
    omega

/-- of two ways to start a stream of blocks, one is a prefix of the other, so they are the
same block -/
theorem block_eq_of_append_eq (hlh : lo < hi) {b c : List α} {bs cs : List (List α)}
    (hb : IsBlock key lo hi b) (hc : IsBlock key lo hi c)
    (hbs : ∀ d ∈ bs, IsBlock key lo hi d) (hcs : ∀ d ∈ cs, IsBlock key lo hi d)
    (h : b ++ bs.flatten = c ++ cs.flatten) : b = c := by
  rcases List.append_eq_append_iff.mp h with ⟨a, rfl, ha⟩ | ⟨a, rfl, ha⟩
  · -- `c = b ++ a`, and `a` starts the rest of `bs`
    have : a = [] := nil_of_isBlock_append hlh hb hc.sorted fun x hx =>
      head_flatten_le hbs x (by rw [ha, List.head?_append, Option.mem_def, hx]; rfl)
    simp [this]
  · have : a = [] := nil_of_isBlock_append hlh hc hb.sorted fun x hx =>
      head_flatten_le hcs x (by rw [ha, List.head?_append, Option.mem_def, hx]; rfl)
    simp [this]

theorem flatten_inj_of_blocks (hlh : lo < hi) {bs cs : List (List α)}
    (hb : ∀ b ∈ bs, IsBlock key lo hi b) (hc : ∀ c ∈ cs, IsBlock key lo hi c)
    (h : bs.flatten = cs.flatten) : bs = cs := by
  induction bs generalizing cs with
  | nil =>
    cases cs with
    | nil => rfl
    | cons c cs =>
      have := (List.flatten_eq_nil_iff.mp h.symm) c (List.mem_cons_self ..)
      exact absurd this (hc c (List.mem_cons_self ..)).ne_nil
  | cons b bs ih =>
    cases cs with
    | nil =>
      have := (List.flatten_eq_nil_iff.mp h) b (List.mem_cons_self ..)
      exact absurd this (hb b (List.mem_cons_self ..)).ne_nil
    | cons c cs =>
      simp only [List.flatten_cons] at h
      have hbc : b = c := block_eq_of_append_eq hlh (hb b (List.mem_cons_self ..))
        (hc c (List.mem_cons_self ..)) (fun d hd => hb d (List.mem_cons_of_mem _ hd))
        (fun d hd => hc d (List.mem_cons_of_mem _ hd)) h
      subst hbc
      rw [ih (fun d hd => hb d (List.mem_cons_of_mem _ hd))
        (fun d hd => hc d (List.mem_cons_of_mem _ hd)) (List.append_cancel_left h)]

theorem rel_head_of_mem {β : Type*} {R : β → β → Prop} {l : List β} (hl : l.Pairwise R)
    {x y : β} (hx : x ∈ l.head?) (hy : y ∈ l) : x = y ∨ R x y := by
  obtain ⟨t, rfl⟩ : ∃ t, l = x :: t := by
    cases l with
    | nil => simp at hx
    | cons z t => exact ⟨t, by simp_all⟩
  rcases List.mem_cons.mp hy with rfl | hy
  · exact .inl rfl
  · exact .inr ((List.pairwise_cons.mp hl).1 y hy)

/-- sorted fields with a field of key `lo` and one of key `hi` form a block -/
theorem isBlock_of_mem {b : List α} (hs : b.Pairwise fun x y => key x < key y) {x y : α}
    (hx : x ∈ b) (hy : y ∈ b) (hkx : key x = lo) (hky : key y = hi) : IsBlock key lo hi b := by
  refine ⟨hs, fun z hz => ?_, fun z hz => ?_, List.ne_nil_of_mem hx⟩
  · -- the head is the field `lo` or comes before it
    rcases rel_head_of_mem hs hz hx with rfl | h
    · exact Nat.le_of_eq hkx
    · omega
  · -- the last field is the head of the reversed list
    rw [← List.head?_reverse] at hz
    rcases rel_head_of_mem (List.pairwise_reverse.mpr hs) hz (List.mem_reverse.mpr hy) with
      rfl | h
    · exact Nat.le_of_eq hky.symm
    · omega

end Blocks

/-! ## field codings -/

/-- a code for the fields of a message: each field has a key, and its bytes are non-empty and
prefix-free, as a tag followed by a varint or a length-delimited payload is -/
structure FieldCoding (F : Type*) where
  key : F → ℕ
  enc : F → List UInt8
  append_inj : ∀ {f g : F} {r r' : List UInt8}, enc f ++ r = enc g ++ r' → f = g ∧ r = r'
  ne_nil : ∀ f, enc f ≠ []

namespace FieldCoding

variable {F : Type*} (c : FieldCoding F)

/-- the bytes of a list of fields, one after the other -/
def encodeFields (fs : List F) : List UInt8 := fs.flatMap c.enc

variable {c}

theorem encodeFields_inj {fs gs : List F} (h : c.encodeFields fs = c.encodeFields gs) :
    fs = gs := by
  induction fs generalizing gs with
  | nil =>
    cases gs with
    | nil => rfl
    | cons g gs => simp [encodeFields, c.ne_nil] at h
  | cons f fs ih =>
    cases gs with
    | nil => simp [encodeFields, c.ne_nil] at h
    | cons g gs =>
      simp only [encodeFields, List.flatMap_cons] at h
      obtain ⟨rfl, hrest⟩ := c.append_inj h
      rw [ih hrest]

theorem encodeFields_flatten (ms : List (List F)) :
    c.encodeFields ms.flatten = (ms.map c.encodeFields).flatten := by
  induction ms with
  | nil => rfl
  | cons m ms ih =>
    simp only [List.flatten_cons, List.map_cons, encodeFields, List.flatMap_append] at ih ⊢
    rw [ih]

theorem encodeFields_flatten_inj {lo hi : ℕ} (hlh : lo < hi) {ms ns : List (List F)}
    (hm : ∀ fs ∈ ms, IsBlock c.key lo hi fs) (hn : ∀ fs ∈ ns, IsBlock c.key lo hi fs)
    (h : (ms.map c.encodeFields).flatten = (ns.map c.encodeFields).flatten) : ms = ns := by
  rw [← encodeFields_flatten, ← encodeFields_flatten] at h
  exact flatten_inj_of_blocks hlh hm hn (encodeFields_inj h)

end FieldCoding

end Wire
