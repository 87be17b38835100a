import Wasrisc.Zkvm

namespace Wasrisc.OutputWindow

open AddressedMemory HostMemory Zkvm

def outputWindow : Set U64 := {a | outputAddr.toNat ≤ a.toNat ∧ a.toNat < ramStart.toNat}

/-- `n` calls, begun in the memory `ram`, have stored nothing outside the window but the counter. -/
structure Contained (S : Symbols) (ram : Ram) (n : ℕ) (m : Machine) : Prop where
  stores : ∀ a ∈ m.stores, span a 4 ⊆ outputWindow
  frame : ∀ a ∉ outputWindow, a ∉ span S.outputCount 4 → m.ram a = ram a
  count : m.outputCount S = BitVec.ofNat 32 n

theorem mem_outputWindow {a : U64} :
    a ∈ outputWindow ↔ 0xa0010000 ≤ a.toNat ∧ a.toNat < 0xa0020000 := Iff.rfl

theorem ptrCount_in_window : span ptrCount 4 ⊆ outputWindow := by
  have hcount : ptrCount.toNat = 0xa0010000 := rfl
  intro a ha
  rw [mem_span_iff_of_le (by omega)] at ha
  rw [mem_outputWindow]
  omega

theorem wordAddress_in_window_iff {i : ℕ} (hi : i ≤ capacity) :
    span (wordAddress i) 4 ⊆ outputWindow ↔ i < capacity := by
  have hcapacity : capacity = 16383 := rfl
  have hword := wordAddress_toNat hi
  constructor
  · intro h
    have hmem : wordAddress i ∈ outputWindow := by
      apply h
      rw [mem_span_iff_of_le (by omega)]
      omega
    have hlt := hmem.2
    rw [hword, show ramStart.toNat = 0xa0020000 from rfl] at hlt
    omega
  · intro hlt a ha
    rw [mem_span_iff_of_le (by omega)] at ha
    rw [mem_outputWindow]
    omega

theorem printk_contained {S : Symbols} {ram : Ram} {n : ℕ} {m : Machine}
    (h : Contained S ram n m) (hn : n < capacity) (val : U32) :
    Contained S ram (n + 1) (printk S val m) := by
  have hprintk := printk_eq S h.count hn.le val
  have hword := (wordAddress_in_window_iff hn.le).mpr hn
  constructor
  · intro a ha
    rw [hprintk, List.mem_cons, List.mem_cons] at ha
    rcases ha with rfl | rfl | ha
    · exact hword
    · exact ptrCount_in_window
    · exact h.stores a ha
  · intro a hwindow hcounter
    rw [hprintk]
    change printed S m.ram n val a = ram a
    rw [printed, store32_of_notMem (fun ha => hwindow (hword ha)),
      store32_of_notMem (fun ha => hwindow (ptrCount_in_window ha)), store32_of_notMem hcounter]
    exact h.frame a hwindow hcounter
  · exact outputCount_printk S h.count hn val

theorem run_contained {S : Symbols} {ram : Ram} (vs : List U32) {n : ℕ} {m : Machine}
    (h : Contained S ram n m) (hn : n + vs.length ≤ capacity) :
    Contained S ram (n + vs.length) (vs.foldl (testmodulePrintk S) m) := by
  induction vs generalizing n m with
  | nil => exact h
  | cons v vs ih =>
    rw [List.length_cons] at hn ⊢
    rw [List.foldl_cons, show n + (vs.length + 1) = n + 1 + vs.length by omega]
    exact ih (printk_contained h (by omega) v) (by omega)

theorem stores_run (S : Symbols) (vs : List U32) (m : Machine) {a : U64} (ha : a ∈ m.stores) :
    a ∈ (vs.foldl (testmodulePrintk S) m).stores := by
  induction vs generalizing m with
  | nil => exact ha
  | cons v vs ih =>
    exact ih _ (List.mem_cons_of_mem _ (List.mem_cons_of_mem _ ha))

theorem overflow_store {S : Symbols} {ram : Ram} {m : Machine} (h : Contained S ram 0 m)
    {vs : List U32} (hvs : capacity < vs.length) :
    wordAddress capacity ∈ (vs.foldl (testmodulePrintk S) m).stores := by
  obtain ⟨v, rest, hsplit⟩ : ∃ v rest, vs.drop capacity = v :: rest :=
    List.exists_cons_of_length_pos (by rw [List.length_drop]; omega)
  have htake : (vs.take capacity).length = capacity := by
    rw [List.length_take, Nat.min_eq_left hvs.le]
  have hfull := run_contained (vs.take capacity) h (by omega)
  rw [← List.take_append_drop capacity vs, hsplit, List.foldl_append, List.foldl_cons]
  apply stores_run
  have hcount := hfull.count
  rw [Nat.zero_add, htake] at hcount
  rw [testmodulePrintk, printk_eq S hcount (le_refl _)]
  exact List.mem_cons_self

theorem initially_contained {S : Symbols} {ram : Ram} (h : load32 ram S.outputCount = 0) :
    Contained S ram 0 ⟨ram, []⟩ :=
  ⟨fun _ ha => absurd ha List.not_mem_nil, fun _ _ _ => rfl, h⟩

theorem output_contained_iff (S : Symbols) (ram : Ram) (h : load32 ram S.outputCount = 0)
    (vs : List U32) :
    Contained S ram vs.length (vs.foldl (testmodulePrintk S) ⟨ram, []⟩) ↔
      vs.length ≤ capacity := by
  have hinit := initially_contained h
  constructor
  · intro hcontained
    by_contra hlong
    have hstore := overflow_store hinit (Nat.lt_of_not_le hlong)
    exact absurd ((wordAddress_in_window_iff (le_refl _)).mp (hcontained.stores _ hstore))
      (lt_irrefl _)
  · intro hle
    have hrun := run_contained vs hinit (by omega)
    rwa [Nat.zero_add] at hrun

theorem output_contained_two :
    Contained firstWord (fun _ => 0) 2 ([7, 9].foldl (testmodulePrintk firstWord) ⟨fun _ => 0, []⟩) :=
  (output_contained_iff firstWord (fun _ => 0) (by decide) [7, 9]).mpr (by decide)

theorem output_leaves_window :
    ¬ Contained firstWord (fun _ => 0) 16384
      ((List.replicate 16384 0).foldl (testmodulePrintk firstWord) ⟨fun _ => 0, []⟩) := by
  intro hcontained
  have hinit : Contained firstWord (fun _ => 0) 0 ⟨fun _ => 0, []⟩ :=
    initially_contained (by decide)
  have hlong : capacity < (List.replicate 16384 (0 : U32)).length := by
    rw [List.length_replicate]
    decide
  have hstore := overflow_store hinit hlong
  exact absurd ((wordAddress_in_window_iff (le_refl _)).mp (hcontained.stores _ hstore))
    (lt_irrefl _)

end Wasrisc.OutputWindow
