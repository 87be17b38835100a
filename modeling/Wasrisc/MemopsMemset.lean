import Wasrisc.MemopsText

namespace Wasrisc.MemopsMemset

open AddressedMemory HostMemory LittleEndian MemoryWindows WordBytes Rv64 Assembler MemopsText
open Instr Memset

def clobbered : List Reg := [.a1, .a2, .a3, .a4, .a5, .t0]

variable {c : Code} {b : U64} {ext : Sym → U64}

theorem run_setByte {s : State} : ∃ t, run s setByte = some t ∧ t.get .a5 = s.get .a5 + 1 ∧
    t.mem = write s.mem (s.get .a5) [(s.get .a1).setWidth 8] := by
  refine ⟨_, rfl, ?_, ?_⟩
  · simp [Op.eval, Imm.value]
  · simp [update_eq_write]

structure BytesSet (m : Ram) (dst : U64) (v : U8) (i : ℕ) (s : State) : Prop where
  pointer : s.get .a5 = dst + BitVec.ofNat 64 i
  value : (s.get .a1).setWidth 8 = v
  filled : s.mem = overwrite m dst 0 i fun _ => v

theorem setBytes {s : State} {m : Ram} {dst : U64} {v : U8} {i n k : ℕ} {e : Reg}
    (hc : Located c b (code b ext memset)) (he : e ≠ .a5)
    (hblk : ((code b ext memset).drop k).take 2 = setByte)
    (hbranch : (code b ext memset)[k + 2]? = some (bltu .a5 e (slot b k)))
    (hw : dst.toNat + (i + n) < 2 ^ 64) (hn : 0 < n) (hpc : s.pc = slot b k)
    (hend : s.get e = dst + BitVec.ofNat 64 (i + n)) (hs : BytesSet m dst v i s) :
    Leads c [.a5] s fun t => t.pc = slot b (k + 3) ∧ BytesSet m dst v (i + n) t := by
  have hframe5 : e ∉ [Reg.a5] := by simpa using he
  apply Leads.doWhile (I := fun j => BytesSet m dst v (i + j)) hc k setByte hblk rfl hbranch hpc hn hs
  intro j t hj hframe ht
  obtain ⟨u, hrun, hp, hm⟩ := run_setByte (s := t)
  have hnext : u.get .a5 = dst + BitVec.ofNat 64 (i + (j + 1)) := by
    rw [hp, ht.pointer, BitVec.add_assoc, ← Nat.add_assoc i, BitVec.ofNat_add (x := i + j)]
    rfl
  refine ⟨u, hrun, ?_, fun a => ⟨hnext, ?_, ?_⟩⟩
  · rw [hnext, run_frame (R := [.a5]) rfl hrun hframe5, hframe e hframe5, hend, Cond.eval,
      decide_eq_decide, offset_lt_offset (by omega) (by omega)]
    omega
  · rw [get_goto, run_frame (R := [.a5]) rfl hrun (by decide), ht.value]
  · rw [mem_goto, hm, ht.value, ht.pointer, ht.filled]
    apply write_overwrite_up List.length_singleton (by omega) (by omega)
    intro l hl
    simp

theorem run_words {s : State} {m : Ram} {dst : U64} {v : U8} {k j off : ℕ} (hk : k + j ≤ 32)
    (hbase : s.get .a5 + BitVec.ofNat 64 (8 * k) = dst + BitVec.ofNat 64 off)
    (halign : (dst.toNat + off) % 8 = 0) (hw : dst.toNat + (off + 8 * j) < 2 ^ 64)
    (hvalue : s.get .a1 = splat v) (hm : s.mem = overwrite m dst 0 off fun _ => v) :
    run s ((List.range' k j).map fun i => .sd .a1 (BitVec.ofNat 12 (8 * i)) .a5) =
      some (s.store (overwrite m dst 0 (off + 8 * j) fun _ => v)) := by
  induction j generalizing s k off with
  | zero =>
    rw [Nat.mul_zero, Nat.add_zero, ← hm]
    rfl
  | succ j ih =>
    rw [List.range'_succ, List.map_cons]
    refine run_cons.mpr ⟨s.store (overwrite m dst 0 (off + 8) fun _ => v), ?_, ?_⟩
    · have hstore : store64 s.mem (dst + BitVec.ofNat 64 off) (splat v) =
          overwrite m dst 0 (off + 8) fun _ => v := by
        rw [store64_splat, hm]
        apply write_overwrite_up (List.length_replicate ..) (by omega) (by omega)
        intro i hi
        rw [List.getElem_replicate]
      have haddr : (dst + BitVec.ofNat 64 off).toNat % 8 = 0 := by
        rw [add_toNat (by omega)]
        exact halign
      simp only [effect, signExtend_imm (show 8 * k < 2048 by omega), hbase, hvalue, hstore]
      exact if_pos haddr
    · have hnext : s.get .a5 + BitVec.ofNat 64 (8 * (k + 1)) = dst + BitVec.ofNat 64 (off + 8) := by
        rw [Nat.mul_succ, BitVec.ofNat_add, ← BitVec.add_assoc, hbase, BitVec.ofNat_add (x := off),
          BitVec.add_assoc]
      have hrest := ih (s := s.store (overwrite m dst 0 (off + 8) fun _ => v)) (k := k + 1) (by omega) hnext (by omega) (by omega) hvalue rfl
      rw [hrest, Nat.add_assoc off, Nat.mul_succ, Nat.add_comm 8]
      rfl

theorem drop_setWords (k : ℕ) : (setWords : List (Instr U64)).drop k =
    (List.range' k (32 - k)).map fun i => .sd .a1 (BitVec.ofNat 12 (8 * i)) .a5 := by
  rw [setWords, ← List.map_drop, List.range_eq_range', List.drop_range', Nat.mul_one, Nat.zero_add]

theorem drop_take_setWords (k : ℕ) : ((code b ext memset).drop (30 + k)).take
    ((setWords : List (Instr U64)).drop k).length = (setWords : List (Instr U64)).drop k := by
  have hwords : ((code b ext memset).drop 30).take 32 = setWords := rfl
  rw [List.length_drop, show (setWords : List (Instr U64)).length = 32 from rfl, ← hwords,
    List.drop_take, List.drop_drop]

/-- One entry into the unrolled loop, `j` stores before its end: the loop goes round again while
fewer than `q` doublewords are set. -/
theorem pass {s : State} {m : Ram} {dst : U64} {v : U8} {h i j q : ℕ}
    (hc : Located c b (code b ext memset)) (hj : j ≤ 32) (hi : i + j ≤ q)
    (hpc : s.pc = slot b (30 + (32 - j)))
    (hbase : s.get .a5 + BitVec.ofNat 64 (8 * (32 - j)) = dst + BitVec.ofNat 64 (h + 8 * i))
    (halign : (dst.toNat + h) % 8 = 0) (hw : dst.toNat + (h + 8 * q) < 2 ^ 64)
    (hvalue : s.get .a1 = splat v) (hlast : s.get .a4 = dst + BitVec.ofNat 64 (h + 8 * q))
    (hm : s.mem = overwrite m dst 0 (h + 8 * i) fun _ => v) :
    Leads c [.a5] s fun t => t.pc = slot b (if i + j < q then 30 else 64) ∧
      t.get .a5 = dst + BitVec.ofNat 64 (h + 8 * (i + j)) ∧
      t.mem = overwrite m dst 0 (h + 8 * (i + j)) fun _ => v := by
  have hrun := run_words (k := 32 - j) (j := j) (by omega) hbase (by omega) (by omega) hvalue hm
  have hwords : (setWords : List (Instr U64)).drop (32 - j) = (List.range' (32 - j) j).map
      fun i => .sd .a1 (BitVec.ofNat 12 (8 * i)) .a5 := by
    rw [drop_setWords, Nat.sub_sub_self hj]
  have hpointer : s.get .a5 + 256 = dst + BitVec.ofNat 64 (h + 8 * (i + j)) := by
    have h256 : (256 : U64) = BitVec.ofNat 64 (8 * (32 - j) + 8 * j) := by
      rw [show 8 * (32 - j) + 8 * j = 256 by omega]
      rfl
    rw [h256, BitVec.ofNat_add, ← BitVec.add_assoc, hbase, BitVec.add_assoc, ← BitVec.ofNat_add,
      Nat.mul_add, Nat.add_assoc]
  have hlt := offset_lt_offset (a := dst) (i := h + 8 * (i + j)) (j := h + 8 * q) (by omega) (by omega)
  rw [← hwords] at hrun
  have hstraight : ((setWords : List (Instr U64)).drop (32 - j)).all (·.straight [.a5]) = true := by
    apply List.all_eq_true.mpr
    intro i hi
    obtain ⟨k, -, rfl⟩ := List.mem_map.mp (List.mem_of_mem_drop hi)
    rfl
  have hlength : 30 + (32 - j) + ((setWords : List (Instr U64)).drop (32 - j)).length = 62 := by
    rw [List.length_drop, show (setWords : List (Instr U64)).length = 32 from rfl]
    omega
  apply Leads.block hc _ hpc _ (drop_take_setWords _) hstraight hrun
  obtain ⟨u, hrun', hu, hmu, hlastu⟩ : ∃ u : State,
      run ((s.store (overwrite m dst 0 (h + 8 * i + 8 * j) fun _ => v)).goto (slot b 62))
        [addi .a5 .a5 256] = some u ∧ u.get .a5 = s.get .a5 + 256 ∧
      u.mem = (overwrite m dst 0 (h + 8 * i + 8 * j) fun _ => v) ∧ u.get .a4 = s.get .a4 := by
    refine ⟨_, rfl, ?_, rfl, rfl⟩
    simp [Op.eval, Imm.value]
  have hfilled : u.mem = overwrite m dst 0 (h + 8 * (i + j)) fun _ => v := by
    rw [hmu, Nat.mul_add, Nat.add_assoc]
  rw [hlength]
  apply Leads.block hc 62 rfl [addi .a5 .a5 256] rfl rfl hrun'
  apply Leads.branch (a := slot b 30) hc 63 rfl rfl
  · intro htaken
    rw [get_goto, get_goto, hu, hpointer, hlastu, hlast, Cond.eval, decide_eq_true_eq, hlt] at htaken
    have hmore : i + j < q := by omega
    apply Leads.done
    rw [if_pos hmore]
    exact ⟨rfl, hu.trans hpointer, hfilled⟩
  · intro hnot
    rw [get_goto, get_goto, hu, hpointer, hlastu, hlast, Cond.eval, decide_eq_false_iff_not,
      hlt] at hnot
    have hover : ¬ i + j < q := by omega
    apply Leads.done
    rw [if_neg hover]
    exact ⟨rfl, hu.trans hpointer, hfilled⟩

theorem mainLoop {s : State} {m : Ram} {dst : U64} {v : U8} {h j q : ℕ}
    (hc : Located c b (code b ext memset)) (hj : j ≤ 32) (hq : j ≤ q)
    (hmod : (q - j) % 32 = 0) (hpc : s.pc = slot b (30 + (32 - j)))
    (hbase : s.get .a5 + BitVec.ofNat 64 (8 * (32 - j)) = dst + BitVec.ofNat 64 h)
    (halign : (dst.toNat + h) % 8 = 0) (hw : dst.toNat + (h + 8 * q) < 2 ^ 64)
    (hvalue : s.get .a1 = splat v) (hlast : s.get .a4 = dst + BitVec.ofNat 64 (h + 8 * q))
    (hm : s.mem = overwrite m dst 0 h fun _ => v) :
    Leads c [.a5] s fun t => t.pc = slot b 64 ∧
      t.get .a5 = dst + BitVec.ofNat 64 (h + 8 * q) ∧
      t.mem = overwrite m dst 0 (h + 8 * q) fun _ => v := by
  have hrounds : j + 32 * ((q - j) / 32) = q := by omega
  apply (pass (i := 0) hc hj (by omega) hpc (by simpa using hbase) halign hw hvalue hlast
    (by simpa using hm)).trans (List.Subset.refl _)
  intro t hframe ht
  apply Leads.mono (Leads.loop (n := (q - j) / 32) (I := fun i t =>
    t.pc = slot b (if j + 32 * i < q then 30 else 64) ∧
    t.get .a5 = dst + BitVec.ofNat 64 (h + 8 * (j + 32 * i)) ∧
    t.mem = overwrite m dst 0 (h + 8 * (j + 32 * i)) fun _ => v) _ (by simpa using ht))
  · rintro u ⟨hpcu, hu, hmu⟩
    rw [hrounds] at hpcu hu hmu
    rw [if_neg (lt_irrefl q)] at hpcu
    exact ⟨hpcu, hu, hmu⟩
  · rintro i u hi hframe' ⟨hpcu, hu, hmu⟩
    rw [if_pos (by omega)] at hpcu
    apply Leads.mono (pass (i := j + 32 * i) (j := 32) (q := q) hc le_rfl (by omega) hpcu
      (by simpa using hu) halign hw _ _ hmu)
    · intro w hw
      exact hw
    · rw [hframe' .a1 (by decide), hframe .a1 (by decide), hvalue]
    · rw [hframe' .a4 (by decide), hframe .a4 (by decide), hlast]

theorem run_propagate {s : State} {v : U8} (hv : s.get .a1 = v.setWidth 64) :
    ∃ t, run s propagate = some t ∧ t.get .a1 = splat v ∧
      t.get .a4 = (s.get .a5 + s.get .a2) &&& ~~~7 ∧ t.get .a3 = s.get .a2 &&& 248 ∧
      t.get .a2 = s.get .a2 &&& 7 ∧ t.mem = s.mem := by
  have h8 : (BitVec.signExtend 64 (8 : BitVec 12)).toNat % 64 = 8 * 1 := rfl
  have h16 : (BitVec.signExtend 64 (16 : BitVec 12)).toNat % 64 = 8 * 2 := rfl
  have h32 : (BitVec.signExtend 64 (32 : BitVec 12)).toNat % 64 = 8 * 4 := rfl
  refine ⟨_, rfl, ?_, ?_, ?_, ?_, rfl⟩
  · simp only [get_set, Op.eval, Imm.value, reduceCtorEq, ne_eq, not_false_eq_true, and_self,
      and_true, ↓reduceIte, hv, splat_one, h8, h16, h32, splat_step]
  · simp [Op.eval, Imm.value]
  · simp [Op.eval, Imm.value]
  · simp [Op.eval, Imm.value]

theorem run_dispatch {s : State} {p a : U64} {r : ℕ} (hr : r < 32)
    (hhi : s.get .t0 = p + pcrelHi (a - p)) (hrest : s.get .a3 = BitVec.ofNat 64 (8 * r)) :
    ∃ t, run s (dispatch p a) = some t ∧ t.get .t0 = a - BitVec.ofNat 64 (4 * r) ∧
      t.get .a5 + BitVec.ofNat 64 (8 * (32 - r)) = s.get .a5 ∧ t.mem = s.mem := by
  have hshift : BitVec.ofNat 64 (8 * r) >>> 1 = BitVec.ofNat 64 (4 * r) := by
    apply BitVec.eq_of_toNat_eq
    rw [BitVec.toNat_ushiftRight, BitVec.toNat_ofNat, BitVec.toNat_ofNat]
    omega
  have h256 : (-256 : U64) + BitVec.ofNat 64 (8 * (32 - r)) + BitVec.ofNat 64 (8 * r) = 0 := by
    rw [BitVec.add_assoc, ← BitVec.ofNat_add, show 8 * (32 - r) + 8 * r = 256 by omega]
    rfl
  have hone : (BitVec.signExtend 64 (1 : BitVec 12)).toNat % 64 = 1 := rfl
  have hminus : BitVec.signExtend 64 (-256 : BitVec 12) = -256 := rfl
  refine ⟨_, rfl, ?_, ?_, rfl⟩
  · have hlo := pcrelHi_add_pcrelLo (a - p)
    simp only [get_set, Op.eval, Imm.value, reduceCtorEq, ne_eq, not_false_eq_true, and_self,
      and_true, ↓reduceIte, hhi, hrest, hone, hshift]
    linear_combination hlo
  · simp only [get_set, Op.eval, Imm.value, reduceCtorEq, ne_eq, not_false_eq_true, and_self,
      and_true, ↓reduceIte, hrest, hminus]
    linear_combination h256

theorem setTail {s : State} {m : Ram} {dst : U64} {v : U8} {i n : ℕ}
    (hc : Located c b (code b ext memset)) (hw : dst.toNat + (i + n) < 2 ^ 64) (hpc : s.pc = slot b 64)
    (hleft : s.get .a2 = BitVec.ofNat 64 n) (hs : BytesSet m dst v i s)
    (hra : (s.get .ra).toNat % 4 = 0) :
    Leads c clobbered s fun t => t.pc = s.get .ra ∧ t.mem = overwrite m dst 0 (i + n) fun _ => v := by
  apply Leads.branch (a := slot b 69) hc 64 hpc rfl
  · intro htaken
    have hn : n = 0 := by
      rw [get_zero, hleft, Cond.eval, decide_eq_true_eq] at htaken
      have := congrArg BitVec.toNat htaken
      rw [BitVec.toNat_ofNat, Nat.mod_eq_of_lt (by omega)] at this
      exact this
    refine Leads.jr hc 69 rfl rfl hra (Leads.done ?_)
    rw [hn]
    exact ⟨rfl, hs.filled⟩
  · intro hnot
    have hn : 0 < n := by
      rw [get_zero, hleft, Cond.eval, decide_eq_false_iff_not] at hnot
      apply Nat.pos_of_ne_zero
      rintro rfl
      exact hnot rfl
    obtain ⟨u, hrun, hend, hu⟩ : ∃ u, run (s.goto (slot b 65)) [add .a2 .a2 .a5] = some u ∧
        u.get .a2 = dst + BitVec.ofNat 64 (i + n) ∧ BytesSet m dst v i u := by
      refine ⟨_, rfl, ?_, ?_⟩
      · simp only [get_set, get_goto, Op.eval, hleft, hs.pointer, BitVec.ofNat_add]
        ring_nf
        rfl
      · exact ⟨by simpa using hs.pointer, by simpa using hs.value, hs.filled⟩
    have hrau : u.get .ra = s.get .ra := run_frame (R := clobbered) rfl hrun (by decide)
    apply Leads.block hc 65 rfl [add .a2 .a2 .a5] rfl rfl hrun
    refine Leads.trans (setBytes (e := .a2) (k := 66) hc (by decide) rfl rfl hw hn rfl hend
      ⟨hu.pointer, hu.value, hu.filled⟩) (by decide) ?_
    intro t hframe ht
    have hrat : t.get .ra = s.get .ra := (hframe .ra (by decide)).trans hrau
    refine Leads.jr hc 69 ht.1 rfl (hrat ▸ hra) (Leads.done ?_)
    exact ⟨hrat, ht.2.filled⟩

theorem ofNat_and_248 (n : ℕ) :
    BitVec.ofNat 64 n &&& 248 = BitVec.ofNat 64 (8 * (n / 8 % 32)) := by
  have hmask : BitVec.ofNat 64 n &&& 248 = (BitVec.ofNat 64 n &&& 255) &&& ~~~7 := by
    rw [BitVec.and_assoc]
    rfl
  have h255 := toNat_and_mask (BitVec.ofNat 64 n) (k := 8) (by omega)
  have h7 := toNat_and_not_mask (BitVec.ofNat 64 n &&& 255) (k := 3) (by omega)
  apply BitVec.eq_of_toNat_eq
  rw [hmask]
  apply h7.trans
  rw [show (BitVec.ofNat 64 n &&& 255).toNat = n % 2 ^ 64 % 2 ^ 8 from
    h255.trans (by rw [BitVec.toNat_ofNat]), BitVec.toNat_ofNat]
  omega

theorem setWholeWords {s : State} {m : Ram} {dst : U64} {v : U8} {h q : ℕ}
    (hc : Located c b (code b ext memset)) (hb : b.toNat % 4 = 0) (hpc : s.pc = slot b 22)
    (hw : dst.toNat + (h + 8 * q) < 2 ^ 64) (halign : (dst.toNat + h) % 8 = 0) (hq : 0 < q)
    (hpointer : s.get .a5 = dst + BitVec.ofNat 64 h) (hvalue : s.get .a1 = splat v)
    (hlast : s.get .a4 = dst + BitVec.ofNat 64 (h + 8 * q))
    (hrest : s.get .a3 = BitVec.ofNat 64 (8 * (q % 32)))
    (hm : s.mem = overwrite m dst 0 h fun _ => v) :
    Leads c [.t0, .a3, .a5] s fun t => t.pc = slot b 64 ∧
      t.get .a5 = dst + BitVec.ofNat 64 (h + 8 * q) ∧
      t.mem = overwrite m dst 0 (h + 8 * q) fun _ => v := by
  apply Leads.branch (a := slot b 30) hc 22 hpc rfl
  · intro htaken
    rw [get_zero, hrest, Cond.eval, decide_eq_true_eq, ofNat_eq_zero_iff (by omega)] at htaken
    apply Leads.widen (R := [.a5]) _ (by decide)
    refine mainLoop (j := 32) hc le_rfl (by omega) (by omega) rfl ?_ halign hw hvalue hlast hm
    rw [get_goto, hpointer]
    simp
  · intro hnot
    rw [get_zero, hrest, Cond.eval, decide_eq_false_iff_not, ofNat_eq_zero_iff (by omega)] at hnot
    apply Leads.auipc (a := slot b 62) hc 23 rfl rfl (by decide)
    obtain ⟨u, hrun, ht0, ha5, hmu⟩ := run_dispatch (s := ((s.goto (slot b 23)).set .t0
      (slot b 23 + pcrelHi (slot b 62 - slot b 23))).goto (slot b 24)) (p := slot b 23)
      (a := slot b 62) (r := q % 32) (by omega) (by simp) (by simpa using hrest)
    have hframe : ∀ r ∉ [Reg.t0, .a3, .a5], u.get r = s.get r := by
      intro r hr
      rw [run_frame rfl hrun hr, get_goto, get_set_of_mem (.inr (by decide)) hr, get_goto]
    rw [slot_sub (by omega)] at ht0
    apply Leads.block hc 24 rfl (dispatch (slot b 23) (slot b 62)) rfl rfl hrun
    refine Leads.jr (r := .t0) hc 29 rfl rfl ?_ ?_
    · rw [get_goto, ht0]
      exact slot_aligned hb
    · apply Leads.widen (R := [.a5]) _ (by decide)
      refine mainLoop (j := q % 32) hc (by omega) (by omega) (by omega) ?_ ?_ halign hw
        ((hframe .a1 (by decide)).trans hvalue) ((hframe .a4 (by decide)).trans hlast) (hmu.trans hm)
      · rw [pc_goto, get_goto, ht0]
        congr 1
        omega
      · exact ha5.trans hpointer

theorem setAligned {s : State} {m : Ram} {dst : U64} {v : U8} {h n : ℕ}
    (hc : Located c b (code b ext memset)) (hb : b.toNat % 4 = 0) (hpc : s.pc = slot b 12)
    (hw : dst.toNat + (h + n) < 2 ^ 64) (halign : (dst.toNat + h) % 8 = 0) (hn : 8 ≤ n)
    (hpointer : s.get .a5 = dst + BitVec.ofNat 64 h) (hvalue : s.get .a1 = v.setWidth 64)
    (hleft : s.get .a2 = BitVec.ofNat 64 n) (hm : s.mem = overwrite m dst 0 h fun _ => v)
    (hra : (s.get .ra).toNat % 4 = 0) :
    Leads c clobbered s fun t => t.pc = s.get .ra ∧ t.mem = overwrite m dst 0 (h + n) fun _ => v := by
  obtain ⟨u, hrun, hu1, hu4, hu3, hu2, hum⟩ := run_propagate hvalue
  have hframe {r : Reg} (hr : r ∉ [Reg.a1, .a2, .a3, .a4]) : u.get r = s.get r :=
    run_frame rfl hrun hr
  have hlast : u.get .a4 = dst + BitVec.ofNat 64 (h + 8 * (n / 8)) := by
    rw [hu4, hpointer, hleft, BitVec.add_assoc, ← BitVec.ofNat_add]
    exact offset_and_not_mask (k := 3) (by omega) hw halign
  have hrest : u.get .a3 = BitVec.ofNat 64 (8 * (n / 8 % 32)) := by
    rw [hu3, hleft, ofNat_and_248]
  have htail : u.get .a2 = BitVec.ofNat 64 (n % 8) := by
    rw [hu2, hleft, ofNat_and_seven]
  apply Leads.block hc 12 hpc propagate rfl rfl hrun
  have hmain := setWholeWords (s := u.goto (slot b 22)) hc hb rfl (by omega) halign
    (show 0 < n / 8 by omega) ((hframe (by decide)).trans hpointer) hu1 hlast hrest (hum.trans hm)
  refine hmain.trans (by decide) ?_
  intro t hframe' ht
  have hra' : t.get .ra = s.get .ra := (hframe' .ra (by decide)).trans (hframe (by decide))
  have hbytes : BytesSet m dst v (h + 8 * (n / 8)) t := by
    refine ⟨ht.2.1, ?_, ht.2.2⟩
    rw [hframe' .a1 (by decide), get_goto, hu1, splat_setWidth]
  have hrest' := setTail (n := n % 8) hc (by omega) ht.1 ((hframe' .a2 (by decide)).trans htail) hbytes
    (hra' ▸ hra)
  rw [hra', show h + 8 * (n / 8) + n % 8 = h + n by omega] at hrest'
  exact hrest'

theorem run_misalignment {s : State} : ∃ t, run s misalignment = some t ∧
    t.get .a3 = BitVec.ofNat 64 ((s.get .a0).toNat % 8) ∧
    t.get .a1 = ((s.get .a1).setWidth 8).setWidth 64 ∧ t.mem = s.mem := by
  refine ⟨_, rfl, ?_, ?_, rfl⟩
  · exact and_mask (s.get .a0) (k := 3) (by omega)
  · have h255 := and_mask (s.get .a1) (k := 8) (by omega)
    have hbyte : BitVec.ofNat 64 ((s.get .a1).toNat % 2 ^ 8) = ((s.get .a1).setWidth 8).setWidth 64 := by
      apply BitVec.eq_of_toNat_eq
      rw [BitVec.toNat_ofNat, BitVec.toNat_setWidth, BitVec.toNat_setWidth]
    exact h255.trans hbyte

theorem run_headroom {s : State} {a : U64} {k n : ℕ} (hk : k ≤ 8) (hn : 8 - k ≤ n)
    (ha5 : s.get .a5 = a) (ha3 : s.get .a3 = BitVec.ofNat 64 k) (ha2 : s.get .a2 = BitVec.ofNat 64 n) :
    ∃ t, run s headroom = some t ∧ t.get .a3 = a + BitVec.ofNat 64 (8 - k) ∧
      t.get .a2 = BitVec.ofNat 64 (n - (8 - k)) ∧ t.mem = s.mem := by
  have hminus : BitVec.signExtend 64 (-8 : BitVec 12) = -8 := rfl
  have h8 : BitVec.ofNat 64 (8 - k) + BitVec.ofNat 64 k = (8 : U64) := by
    rw [← BitVec.ofNat_add, Nat.sub_add_cancel hk]
    rfl
  have hleft : BitVec.ofNat 64 (n - (8 - k)) + BitVec.ofNat 64 (8 - k) = BitVec.ofNat 64 n := by
    rw [← BitVec.ofNat_add, Nat.sub_add_cancel hn]
  refine ⟨_, rfl, ?_, ?_, rfl⟩
  · simp only [get_set, Op.eval, Imm.value, reduceCtorEq, ne_eq, not_false_eq_true, and_self,
      and_true, ↓reduceIte, ha5, ha3, hminus]
    linear_combination -h8
  · simp only [get_set, Op.eval, Imm.value, reduceCtorEq, ne_eq, not_false_eq_true, and_self,
      and_true, ↓reduceIte, ha3, ha2, hminus]
    linear_combination h8 - hleft

theorem setLong {s : State} (hc : Located c b (code b ext memset)) (hb : b.toNat % 4 = 0)
    (hpc : s.pc = slot b 3) (hra : (s.get .ra).toNat % 4 = 0) (hn : 16 ≤ (s.get .a2).toNat)
    (hw : (s.get .a0).toNat + (s.get .a2).toNat < 2 ^ 64) (hpointer : s.get .a5 = s.get .a0) :
    Leads c clobbered s fun t => t.pc = s.get .ra ∧
      t.mem = fill s.mem (s.get .a0) (s.get .a2).toNat ((s.get .a1).setWidth 8) := by
  have hempty : s.mem = overwrite s.mem (s.get .a0) 0 0 fun _ => (s.get .a1).setWidth 8 :=
    (overwrite_empty le_rfl).symm
  have hleft : s.get .a2 = BitVec.ofNat 64 (s.get .a2).toNat := by simp
  obtain ⟨u, hrun, hu3, hu1, hum⟩ := run_misalignment (s := s)
  have hframe {r : Reg} (hr : r ∉ [Reg.a1, .a3]) : u.get r = s.get r := run_frame rfl hrun hr
  apply Leads.block hc 3 hpc misalignment rfl rfl hrun
  apply Leads.branch (a := slot b 12) hc 5 rfl rfl
  · intro htaken
    rw [get_zero, get_goto, hu3, Cond.eval, decide_eq_true_eq, ofNat_eq_zero_iff (by omega)] at htaken
    refine Leads.mono (setAligned (m := s.mem) (h := 0) hc hb rfl (by omega)
      (by omega) (show 8 ≤ (s.get .a2).toNat by omega) ?_ hu1 ((hframe (by decide)).trans hleft)
      (hum.trans hempty) ?_) ?_
    · rw [get_goto, get_goto, hframe (by decide), hpointer, offset_zero]
    · rw [get_goto, get_goto, hframe (by decide)]
      exact hra
    · rintro t ⟨hpct, hmt⟩
      rw [Nat.zero_add, overwrite_const] at hmt
      exact ⟨hpct.trans (hframe (by decide)), hmt⟩
  · intro hnot
    have hhead : (s.get .a0).toNat + (0 + (8 - (s.get .a0).toNat % 8)) < 2 ^ 64 := by omega
    obtain ⟨w, hrun', hw3, hw2, hwm⟩ := run_headroom (s := (u.goto (slot b 5)).goto (slot b 6))
      (k := (s.get .a0).toNat % 8) (n := (s.get .a2).toNat) (by omega) (by omega)
      ((hframe (by decide)).trans hpointer) hu3 ((hframe (by decide)).trans hleft)
    have hframe' {r : Reg} (hr : r ∉ [Reg.a2, .a3]) : w.get r = u.get r := run_frame rfl hrun' hr
    apply Leads.block hc 6 rfl headroom rfl rfl hrun'
    refine Leads.trans (setBytes (m := s.mem) (v := (s.get .a1).setWidth 8) (k := 9) (e := .a3) hc
      (by decide) rfl rfl hhead (by omega) rfl ?_ ⟨?_, ?_, ?_⟩) (by decide) ?_
    · rw [get_goto, hw3, Nat.zero_add]
    · rw [get_goto, hframe' (by decide), hframe (by decide), hpointer, offset_zero]
    · rw [get_goto, hframe' (by decide), hu1, BitVec.setWidth_setWidth_of_le _ (by omega),
        BitVec.setWidth_eq]
    · exact hwm.trans (hum.trans hempty)
    · rintro t hframet ⟨hpct, hbytes⟩
      have ht1 : t.get .a1 = ((s.get .a1).setWidth 8).setWidth 64 := by
        rw [hframet .a1 (by decide), get_goto, hframe' (by decide), hu1]
      have htra : t.get .ra = s.get .ra := by
        rw [hframet .ra (by decide), get_goto, hframe' (by decide), hframe (by decide)]
      rw [Nat.zero_add] at hbytes
      refine Leads.mono (setAligned (m := s.mem) hc hb hpct (by omega) (by omega)
        (show 8 ≤ (s.get .a2).toNat - (8 - (s.get .a0).toNat % 8) by omega) hbytes.pointer ht1
        ((hframet .a2 (by decide)).trans hw2) hbytes.filled (htra ▸ hra)) ?_
      rintro z ⟨hpcz, hmz⟩
      rw [Nat.add_sub_cancel' (by omega), overwrite_const] at hmz
      exact ⟨hpcz.trans htra, hmz⟩

theorem memset_sets {s : State} (hc : Located c b (code b ext memset)) (hb : b.toNat % 4 = 0)
    (hpc : s.pc = b) (hra : (s.get .ra).toNat % 4 = 0)
    (hw : (s.get .a0).toNat + (s.get .a2).toNat < 2 ^ 64) :
    Leads c clobbered s fun t => t.pc = s.get .ra ∧
      t.mem = fill s.mem (s.get .a0) (s.get .a2).toNat ((s.get .a1).setWidth 8) := by
  obtain ⟨u, hrun, hu4, hu5, hum⟩ : ∃ u, run s entry = some u ∧ u.get .a4 = 16 ∧
      u.get .a5 = s.get .a0 ∧ u.mem = s.mem := by
    refine ⟨_, rfl, ?_, ?_, rfl⟩ <;> simp [Op.eval, Imm.value]
  have hframe {r : Reg} (hr : r ∉ [Reg.a4, .a5]) : u.get r = s.get r := run_frame rfl hrun hr
  rw [← slot_zero b] at hpc
  apply Leads.block hc 0 hpc entry rfl rfl hrun
  apply Leads.branch (a := slot b 64) hc 2 rfl rfl
  · intro htaken
    have hstart : BytesSet s.mem (s.get .a0) ((s.get .a1).setWidth 8) 0
        ((u.goto (slot b 2)).goto (slot b 64)) := by
      refine ⟨?_, congrArg _ (hframe (by decide)), hum.trans (overwrite_empty le_rfl).symm⟩
      rw [get_goto, get_goto, hu5, offset_zero]
    refine Leads.mono (setTail (n := (s.get .a2).toNat) hc (by omega) rfl ?_ hstart ?_) ?_
    · rw [get_goto, get_goto, hframe (by decide)]
      simp
    · rw [get_goto, get_goto, hframe (by decide)]
      exact hra
    · rintro t ⟨hpct, hmt⟩
      rw [Nat.zero_add, overwrite_const] at hmt
      exact ⟨hpct.trans (hframe (by decide)), hmt⟩
  · intro hnot
    have hlong : 16 ≤ (s.get .a2).toNat := by
      rw [get_goto, get_goto, hu4, hframe (by decide), Cond.eval, decide_eq_false_iff_not,
        BitVec.lt_def] at hnot
      have h16 : (16 : U64).toNat = 16 := rfl
      omega
    have hreg {r : Reg} (hr : r ∉ [Reg.a4, .a5]) :
        ((u.goto (slot b 2)).goto (slot b 3)).get r = s.get r := hframe hr
    have hmain := setLong (s := (u.goto (slot b 2)).goto (slot b 3)) hc hb rfl
    rw [hreg (r := .ra) (by decide), hreg (r := .a0) (by decide), hreg (r := .a1) (by decide),
      hreg (r := .a2) (by decide)] at hmain
    have hdone := hmain hra hlong hw hu5
    rw [mem_goto, mem_goto, hum] at hdone
    exact hdone

end Wasrisc.MemopsMemset
