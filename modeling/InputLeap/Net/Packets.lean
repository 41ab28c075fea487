import InputLeap.Net.PacketStreamFilter
import InputLeap.Net.ProtocolUtil

/-!
# Packets as a stream

A filter gives out the packets that are complete in its buffer, one after another.  For
`ProtocolUtil::read`, which reads on until it has what it wants, they are one string of bytes.

## Main definitions

* `Packets.read`, `Packets.drop` : reading from a list of packets.
* `PacketStreamFilter.delivers` : the packets that a filter gives out.

## Main results

* `delivers_read` : reading from a filter is reading from the packets that it delivers.
* `Packets.sim_read` : reading through a list of packets is reading their bytes.
-/

namespace InputLeap

namespace Packets

/-- What is left of the packets without their first `n` bytes. -/
def drop : ℕ → List Bytes → List Bytes
  | _, [] => []
  | n, p :: ps => if n < p.length then p.drop n :: ps else drop (n - p.length) ps

/-- Reads at most `n` bytes of the first packet. -/
def read : List Bytes → ℕ → Bytes × List Bytes
  | [], _ => ([], [])
  | p :: ps, n => (p.take n, drop (min n p.length) (p :: ps))

/-- No packet is empty. -/
def Filled (ps : List Bytes) : Prop := ∀ p ∈ ps, p ≠ []

variable {ps : List Bytes} {p : Bytes} {n k : ℕ}

theorem Filled.cons (hp : p ≠ []) (hps : Filled ps) : Filled (p :: ps) :=
  List.forall_mem_cons.2 ⟨hp, hps⟩

theorem drop_of_lt (h : n < p.length) : drop n (p :: ps) = p.drop n :: ps := if_pos h

theorem drop_of_le (h : p.length ≤ n) : drop n (p :: ps) = drop (n - p.length) ps :=
  if_neg (Nat.not_lt.2 h)

theorem drop_zero (h : Filled ps) : drop 0 ps = ps := by
  cases ps with
  | nil => rfl
  | cons p ps =>
    rw [drop_of_lt (List.length_pos_iff.2 (h p (List.mem_cons_self ..))), List.drop_zero]

theorem drop_drop (ps : List Bytes) (k n : ℕ) : drop n (drop k ps) = drop (k + n) ps := by
  induction ps generalizing k with
  | nil => rfl
  | cons p ps ih =>
    obtain hk | hk := Nat.lt_or_ge k p.length
    · rw [drop_of_lt hk]
      simp only [drop, List.length_drop, List.drop_drop]
      split_ifs with hn hkn hkn
      · rfl
      · omega
      · omega
      · congr 1
        omega
    · rw [drop_of_le hk, ih, drop_of_le (Nat.le_add_right_of_le hk), Nat.sub_add_comm hk]

theorem flatten_drop (ps : List Bytes) (n : ℕ) : (drop n ps).flatten = ps.flatten.drop n := by
  induction ps generalizing n with
  | nil => exact List.drop_nil.symm
  | cons p ps ih =>
    obtain hn | hn := Nat.lt_or_ge n p.length
    · rw [drop_of_lt hn, List.flatten_cons, List.flatten_cons, List.drop_append_of_le_length hn.le]
    · rw [drop_of_le hn, ih, List.flatten_cons, List.drop_append, List.drop_of_length_le hn,
        List.nil_append]

theorem drop_of_length_le (h : ps.flatten.length ≤ n) : drop n ps = [] := by
  induction ps generalizing n with
  | nil => rfl
  | cons p ps ih =>
    rw [List.flatten_cons, List.length_append] at h
    rw [drop_of_le (by omega)]
    exact ih (by omega)

theorem filled_drop (h : Filled ps) (n : ℕ) : Filled (drop n ps) := by
  induction ps generalizing n with
  | nil => exact h
  | cons p ps ih =>
    obtain ⟨-, hps⟩ := List.forall_mem_cons.1 h
    obtain hn | hn := Nat.lt_or_ge n p.length
    · rw [drop_of_lt hn]
      refine .cons (fun hnil => ?_) hps
      exact absurd (List.drop_eq_nil_iff.1 hnil) (Nat.not_le.2 hn)
    · rw [drop_of_le hn]
      exact ih hps _

/-! ### Reading through packets -/

/-- The loop reads as many bytes as it is asked for, if there are so many. -/
theorem readLoop_spec {fuel count : ℕ} (hfuel : count < fuel) (buffer : Bytes) (h : Filled ps) :
    ProtocolUtil.readLoop read fuel count buffer ps =
      if ps.flatten.length < count then (.error .endOfStream, [])
      else (.ok (buffer ++ ps.flatten.take count), drop count ps) := by
  induction fuel generalizing count buffer ps with
  | zero => omega
  | succ fuel ih =>
    by_cases hcount : count = 0
    · subst hcount
      rw [ProtocolUtil.readLoop_zero, if_neg (Nat.not_lt_zero _), List.take_zero, List.append_nil,
        drop_zero h]
    cases ps with
    | nil =>
      rw [ProtocolUtil.readLoop_of_nil hcount rfl, if_pos]
      · rfl
      · exact Nat.pos_of_ne_zero hcount
    | cons p ps =>
      have hpos := List.length_pos_iff.2 (h p (List.mem_cons_self ..))
      have hlength : (p.take count).length = min count p.length := List.length_take
      have hdata : p.take count ≠ [] := fun hnil => by
        rw [hnil, List.length_nil] at hlength
        omega
      have htake : p.take count = (p :: ps).flatten.take (min count p.length) := by
        rw [List.flatten_cons, List.take_append_of_le_length (Nat.min_le_right ..)]
        exact List.take_eq_take_min
      rw [ProtocolUtil.readLoop_of_ne_nil hcount hdata]
      show ProtocolUtil.readLoop read fuel (count - (p.take count).length)
        (buffer ++ p.take count) (drop (min count p.length) (p :: ps)) = _
      rw [ih (by omega) _ (filled_drop h _), flatten_drop, List.length_drop, drop_drop, hlength,
        htake]
      have htotal : p.length ≤ (p :: ps).flatten.length := by
        rw [List.flatten_cons, List.length_append]
        exact Nat.le_add_right ..
      have hcount' : min count p.length + (count - min count p.length) = count := by omega
      by_cases hshort : (p :: ps).flatten.length < count
      · rw [if_pos (by omega), if_pos hshort]
      · rw [if_neg (by omega), if_neg hshort, List.append_assoc, hcount', ← List.take_add,
          hcount']

/-- The stream `s` is what `bytes` are left of, both without the first bytes of `ps`. -/
def Left (ps s : List Bytes) (bytes : Bytes) : Prop :=
  ∃ k, k ≤ ps.flatten.length ∧ s = drop k ps ∧ bytes = ps.flatten.drop k

theorem Left.refl (h : Filled ps) : Left ps ps ps.flatten :=
  ⟨0, Nat.zero_le _, (drop_zero h).symm, rfl⟩

/-- **Reading through packets is reading their bytes.** -/
theorem sim_read (h : Filled ps) (n : ℕ) :
    Reading.Sim (Left ps) (ProtocolUtil.read read n) (Reading.take n) := by
  rintro s bytes ⟨k, hk, rfl, rfl⟩
  rw [ProtocolUtil.read, readLoop_spec (Nat.lt_succ_self n) [] (filled_drop h k), flatten_drop,
    Reading.take, drop_drop, List.nil_append, List.drop_drop]
  split_ifs with hshort
  · refine ⟨rfl, ps.flatten.length, Nat.le_refl _, ?_, List.drop_length.symm⟩
    exact (drop_of_length_le (Nat.le_refl _)).symm
  · rw [List.length_drop] at hshort
    exact ⟨rfl, k + n, by omega, rfl, rfl⟩

end Packets

/-- The complete packets at the start of the bytes; an empty one stops the filter. -/
def unframe : ℕ → Bytes → List Bytes
  | 0, _ => []
  | fuel + 1, bytes =>
    let size := BigEndian.ofBytes (bytes.take 4)
    if bytes.length < 4 ∨ size = 0 ∨ bytes.length < 4 + size then []
    else (bytes.drop 4).take size :: unframe fuel ((bytes.drop 4).drop size)

theorem unframe_of_short {bytes : Bytes} (h : bytes.length < 4 ∨
    BigEndian.ofBytes (bytes.take 4) = 0 ∨
      bytes.length < 4 + BigEndian.ofBytes (bytes.take 4)) (fuel : ℕ) :
    unframe fuel bytes = [] := by
  cases fuel with
  | zero => rfl
  | succ fuel => exact if_pos h

theorem unframe_of_complete {bytes : Bytes} (h : ¬(bytes.length < 4 ∨
    BigEndian.ofBytes (bytes.take 4) = 0 ∨
      bytes.length < 4 + BigEndian.ofBytes (bytes.take 4))) (fuel : ℕ) :
    unframe (fuel + 1) bytes = (bytes.drop 4).take (BigEndian.ofBytes (bytes.take 4)) ::
      unframe fuel ((bytes.drop 4).drop (BigEndian.ofBytes (bytes.take 4))) := if_neg h

theorem unframe_eq {fuel fuel' : ℕ} {bytes : Bytes} (h : bytes.length ≤ fuel)
    (h' : bytes.length ≤ fuel') : unframe fuel bytes = unframe fuel' bytes := by
  induction fuel generalizing fuel' bytes with
  | zero => rw [unframe_of_short (.inl (by omega)), unframe_of_short (.inl (by omega))]
  | succ fuel ih =>
    by_cases hnone : bytes.length < 4 ∨ BigEndian.ofBytes (bytes.take 4) = 0 ∨
      bytes.length < 4 + BigEndian.ofBytes (bytes.take 4)
    · rw [unframe_of_short hnone, unframe_of_short hnone]
    · obtain ⟨fuel', rfl⟩ : ∃ n, fuel' = n + 1 := ⟨fuel' - 1, by omega⟩
      have hrest (n : ℕ) : ((bytes.drop 4).drop n).length = bytes.length - 4 - n := by
        rw [List.length_drop, List.length_drop]
      rw [unframe_of_complete hnone, unframe_of_complete hnone]
      exact congrArg _ (ih (by rw [hrest]; omega) (by rw [hrest]; omega))

theorem filled_unframe (fuel : ℕ) (bytes : Bytes) : Packets.Filled (unframe fuel bytes) := by
  induction fuel generalizing bytes with
  | zero => exact fun _ hp => (by cases hp)
  | succ fuel ih =>
    simp only [unframe]
    split_ifs with hnone
    · exact fun _ hp => (by cases hp)
    · refine .cons (fun hnil => ?_) (ih _)
      have hlength := congrArg List.length hnil
      rw [List.length_take, List.length_drop, List.length_nil] at hlength
      omega

namespace PacketStreamFilter

open StreamBuffer (Ok)

/-- The packets that reads give out before more input arrives; the first one may be read in
part. -/
def delivers (f : PacketStreamFilter) : List Bytes :=
  if f.isReady then
    f.buffer.contents.take f.size ::
      unframe f.buffer.contents.length (f.buffer.contents.drop f.size)
  else []

variable {f : PacketStreamFilter}

theorem delivers_of_not_ready (h : f.isReady = false) : f.delivers = [] := by
  rw [delivers, h]
  rfl

theorem filled_delivers (h : Ok f.buffer) : Packets.Filled f.delivers := by
  unfold delivers
  split_ifs with hready
  · obtain ⟨hsize, hle⟩ := (isReady_iff h).1 hready
    refine .cons (fun hnil => ?_) (filled_unframe _ _)
    have hlength := congrArg List.length hnil
    rw [List.length_take, List.length_nil] at hlength
    omega
  · exact fun _ hp => (by cases hp)

/-- Between packets the length of the next one is taken in, if it has arrived. -/
theorem delivers_readPacketSize (h : Ok f.buffer) (hcounts : f.LengthCounts)
    (hsize : f.size = 0) :
    f.readPacketSize.1.delivers = unframe f.buffer.contents.length f.buffer.contents := by
  obtain ⟨heq, hshort⟩ | ⟨header, rest, b, -, hcontents, hfour, hb, hrest, heq⟩ :=
    readPacketSize_cases h hcounts
  · have hnot : f.isReady = false :=
      Bool.eq_false_iff.2 fun hready => ((isReady_iff h).1 hready).1 hsize
    rw [heq, delivers_of_not_ready hnot]
    exact (unframe_of_short (.inl (hshort hsize)) _).symm
  · have htake : (header ++ rest).take 4 = header := by rw [← hfour, List.take_left]
    have hdrop : (header ++ rest).drop 4 = rest := by rw [← hfour, List.drop_left]
    have hdelivers (f' : PacketStreamFilter) (hbuffer : f'.buffer = b)
        (hsize' : f'.size = BigEndian.ofBytes header) : f'.delivers =
          unframe (header ++ rest).length (header ++ rest) := by
      have hlength : (header ++ rest).length = rest.length + 3 + 1 := by
        rw [List.length_append, hfour]
        omega
      have hready : f'.isReady = true ↔
          BigEndian.ofBytes header ≠ 0 ∧ BigEndian.ofBytes header ≤ rest.length := by
        rw [isReady_iff (hbuffer ▸ hb), hsize', hbuffer, hrest]
      by_cases hshort : BigEndian.ofBytes header = 0 ∨ rest.length < BigEndian.ofBytes header
      · rw [unframe_of_short (by rw [htake, hlength]; omega)]
        refine delivers_of_not_ready (Bool.eq_false_iff.2 fun hr => ?_)
        obtain ⟨hne, hle⟩ := hready.1 hr
        omega
      · rw [hlength, unframe_of_complete (by rw [htake, hlength]; omega), htake, hdrop, delivers,
          if_pos (hready.2 (by omega)), hsize', hbuffer, hrest]
        refine congrArg _ (unframe_eq ?_ ?_)
        · rw [List.length_drop]
          omega
        · rw [List.length_drop]
          omega
    rw [heq, hcontents]
    split_ifs
    · exact hdelivers _ rfl rfl
    · exact hdelivers _ rfl rfl

theorem ok_readPacketSize (h : Ok f.buffer) (hcounts : f.LengthCounts) :
    Ok f.readPacketSize.1.buffer := by
  obtain ⟨heq, -⟩ | ⟨header, rest, b, -, -, -, hb, -, heq⟩ := readPacketSize_cases h hcounts
  · rwa [heq]
  · rw [heq]
    split_ifs
    · exact hb
    · exact hb

/-- **Reading from a filter** is reading from the packets that it delivers. -/
theorem delivers_read (h : Ok f.buffer) {n : ℕ} (hcounts : f.ReadCounts n) :
    (f.read n).1 = (Packets.read f.delivers n).1 ∧
      (f.read n).2.delivers = (Packets.read f.delivers n).2 ∧ Ok (f.read n).2.buffer := by
  obtain ⟨hnone, hwhy⟩ | ⟨k, b, hpos, hk, hready, hb, hcontents, hcounts₁, hread⟩ :=
    read_cases f n h hcounts
  · rw [hnone]
    obtain rfl | hnot := hwhy
    · cases hdelivers : f.delivers with
      | nil => exact ⟨rfl, rfl, h⟩
      | cons p ps =>
        refine ⟨(List.take_zero (l := p)).symm, ?_, h⟩
        show p :: ps = Packets.drop (min 0 p.length) (p :: ps)
        rw [Nat.zero_min, Packets.drop_zero (hdelivers ▸ filled_delivers h)]
    · rw [delivers_of_not_ready hnot]
      exact ⟨rfl, rfl, h⟩
  · obtain ⟨hsize, hle⟩ := (isReady_iff h).1 hready
    set f₁ : PacketStreamFilter := { f with buffer := b, size := f.size - k }
    set p := f.buffer.contents.take f.size
    have hlength : p.length = f.size := by
      rw [List.length_take]
      omega
    have hdelivers : f.delivers =
        p :: unframe f.buffer.contents.length (f.buffer.contents.drop f.size) := if_pos hready
    have hlast : (f.read n).2.delivers = f₁.readPacketSize.1.delivers ∧
        (f.read n).2.buffer = f₁.readPacketSize.1.buffer := by
      rw [hread]
      dsimp only
      split_ifs
      · exact ⟨rfl, rfl⟩
      · exact ⟨rfl, rfl⟩
    rw [hlast.1, hlast.2, hdelivers]
    refine ⟨?_, ?_, ok_readPacketSize (f := f₁) hb hcounts₁⟩
    · rw [hread]
      show f.buffer.contents.take k = p.take n
      rw [List.take_take, hk]
    · show _ = Packets.drop (min n p.length) (p :: _)
      rw [hlength, ← hk]
      obtain hlt | heq := Nat.lt_or_eq_of_le (show k ≤ f.size by omega)
      · -- The packet is not finished.
        have hsame : f₁.readPacketSize.1 = f₁ := by
          have hmore : f₁.size ≠ 0 := by
            show f.size - k ≠ 0
            omega
          rw [readPacketSize, if_neg fun hnone => hmore hnone.1]
        have hready₁ : f₁.isReady = true := by
          refine (isReady_iff hb).2 ⟨?_, ?_⟩
          · show f.size - k ≠ 0
            omega
          · show f.size - k ≤ b.contents.length
            rw [hcontents, List.length_drop]
            omega
        rw [hsame, delivers, if_pos hready₁, Packets.drop_of_lt (by omega)]
        show b.contents.take (f.size - k) :: unframe _ (b.contents.drop (f.size - k)) = _
        rw [hcontents, List.drop_drop, Nat.add_sub_of_le hlt.le, ← List.drop_take]
        refine congrArg _ (unframe_eq ?_ ?_)
        · rw [List.length_drop, List.length_drop]
          omega
        · rw [List.length_drop]
          omega
      · rw [delivers_readPacketSize (f := f₁) hb hcounts₁ (by show f.size - k = 0; omega),
          Packets.drop_of_le (by omega), heq, hlength, Nat.sub_self,
          Packets.drop_zero (filled_unframe _ _)]
        show unframe b.contents.length b.contents = _
        rw [hcontents, heq]
        refine unframe_eq (Nat.le_refl _) ?_
        rw [List.length_drop]
        omega

end PacketStreamFilter

end InputLeap
