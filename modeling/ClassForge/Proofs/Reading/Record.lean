import ClassForge.Pool.Record
import ClassForge.Proofs.Reading.Reader
import Mathlib.Data.Nat.Init

/-!
# Constant records and their bytes

A constant record is read from the bytes that are written for it. A list of records fills
slots, a wide record two of them, so that as many records are read as start within the
declared slots.
-/

namespace ClassForge

open Reader

namespace Record

variable {input rest : List UInt8}

/-! ### One record -/

/-- The record has bytes from which it is read: a text is as long as it says it is, and there
is nothing to read for an unusable record. -/
def Stored : Record → Prop
  | .utf8 length bytes => bytes.length = length.toNat
  | .unusable => False
  | _ => True

/-- A record is read as its tag and its body, whatever the fault is if it is not. -/
theorem read_eq_ok_iff {r : Record} :
  read input = .ok (r, rest) ↔ (u8 >>= readBody) input = .ok (r, rest)
  := by
  rw [read]
  split
  · next h => rw [h]
  · next h =>
    rw [h]
    constructor <;> nofun

/-- What is made of two indices is read from their bytes. -/
theorem read_pair (f : UInt16 → UInt16 → Record) (first second : UInt16) (rest : List UInt8) :
  (u16 >>= fun a => u16 >>= fun b => Pure.pure (f a b)) (pair first second ++ rest)
    = .ok (f first second, rest)
  := by
  rw [pair, List.append_assoc, u16_inverts.bind_write trivial, u16_inverts.map_write trivial]

/-- A record with two indices is read as the two. -/
theorem of_read_pair {f : UInt16 → UInt16 → Record} {r : Record}
    (h : (u16 >>= fun a => u16 >>= fun b => Pure.pure (f a b)) input = .ok (r, rest)) :
  ∃ first second, f first second = r ∧ pair first second ++ rest = input
  := by
  obtain ⟨first, _, -, hfirst, h⟩ := u16_inverts.of_bind h
  obtain ⟨second, -, hr, hsecond⟩ := u16_inverts.of_map h
  use first, second, hr
  rw [pair, List.append_assoc, hsecond, hfirst]

/-- The tag and the body of a stored record are read back, whatever follows. -/
theorem readBody_toBytes {r : Record} (h : r.Stored) (rest : List UInt8) :
  (u8 >>= readBody) (r.toBytes ++ rest) = .ok (r, rest)
  := by
  cases r with
  | utf8 length bytes =>
      change (u16 >>= fun n => Reader.bytes n.toNat >>= fun bytes => pure (utf8 n bytes))
        (Bytes.ofUInt16 length ++ bytes ++ rest) = _
      rw [List.append_assoc, u16_inverts.bind_write trivial]
      apply (bytes_inverts _).map_write h
  | integer value => exact u32_inverts.map_write trivial (fun n => integer n.toInt32) rest
  | float bits => exact u32_inverts.map_write trivial float rest
  | long value => exact u64_inverts.map_write trivial (fun n => long n.toInt64) rest
  | double bits => exact u64_inverts.map_write trivial double rest
  | classRef name => exact u16_inverts.map_write trivial classRef rest
  | string text => exact u16_inverts.map_write trivial string rest
  | fieldRef owner member => exact read_pair fieldRef owner member rest
  | methodRef owner member => exact read_pair methodRef owner member rest
  | interfaceMethodRef owner member => exact read_pair interfaceMethodRef owner member rest
  | nameAndType name descriptor => exact read_pair nameAndType name descriptor rest
  | unusable => contradiction

/-- A record that is read can be stored, and its bytes are those that were read. There is a case for
each tag. -/
theorem toBytes_of_readBody {tag : UInt8} {r : Record} (h : readBody tag input = .ok (r, rest)) :
  r.Stored ∧ r.toBytes ++ rest = tag :: input
  := by
  rcases eq_or_ne tag 1 with rfl | h₁
  · obtain ⟨length, _, -, rfl, hbytes⟩ := u16_inverts.of_bind h
    obtain ⟨bytes, hlength, rfl, rfl⟩ := (bytes_inverts length.toNat).of_map hbytes
    use hlength
    simp [toBytes]
  rcases eq_or_ne tag 3 with rfl | h₃
  · obtain ⟨value, -, rfl, rfl⟩ := u32_inverts.of_map (f := fun n => integer n.toInt32) h
    exact ⟨trivial, rfl⟩
  rcases eq_or_ne tag 4 with rfl | h₄
  · obtain ⟨bits, -, rfl, rfl⟩ := u32_inverts.of_map (f := float) h
    exact ⟨trivial, rfl⟩
  rcases eq_or_ne tag 5 with rfl | h₅
  · obtain ⟨value, -, rfl, rfl⟩ := u64_inverts.of_map (f := fun n => long n.toInt64) h
    exact ⟨trivial, rfl⟩
  rcases eq_or_ne tag 6 with rfl | h₆
  · obtain ⟨bits, -, rfl, rfl⟩ := u64_inverts.of_map (f := double) h
    exact ⟨trivial, rfl⟩
  rcases eq_or_ne tag 7 with rfl | h₇
  · obtain ⟨name, -, rfl, rfl⟩ := u16_inverts.of_map (f := classRef) h
    exact ⟨trivial, rfl⟩
  rcases eq_or_ne tag 8 with rfl | h₈
  · obtain ⟨text, -, rfl, rfl⟩ := u16_inverts.of_map (f := string) h
    exact ⟨trivial, rfl⟩
  rcases eq_or_ne tag 9 with rfl | h₉
  · obtain ⟨owner, member, rfl, rfl⟩ := of_read_pair (f := fieldRef) h
    exact ⟨trivial, rfl⟩
  rcases eq_or_ne tag 10 with rfl | h₁₀
  · obtain ⟨owner, member, rfl, rfl⟩ := of_read_pair (f := methodRef) h
    exact ⟨trivial, rfl⟩
  rcases eq_or_ne tag 11 with rfl | h₁₁
  · obtain ⟨owner, member, rfl, rfl⟩ := of_read_pair (f := interfaceMethodRef) h
    exact ⟨trivial, rfl⟩
  rcases eq_or_ne tag 12 with rfl | h₁₂
  · obtain ⟨name, descriptor, rfl, rfl⟩ := of_read_pair (f := nameAndType) h
    exact ⟨trivial, rfl⟩
  rw [readBody, if_neg h₁, if_neg h₃, if_neg h₄, if_neg h₅, if_neg h₆, if_neg h₇, if_neg h₈,
    if_neg h₉, if_neg h₁₀, if_neg h₁₁, if_neg h₁₂] at h
  contradiction

/-- Records are read back, whatever follows. -/
theorem read_inverts :
  Inverts read toBytes Stored
  := by
  constructor
  · intro r hr rest
    apply read_eq_ok_iff.mpr (readBody_toBytes hr rest)
  · intro input r rest h
    obtain ⟨tag, _, -, hinput, h⟩ := u8_inverts.of_bind (read_eq_ok_iff.mp h)
    rw [← hinput]
    apply toBytes_of_readBody h

/-! ### Slots -/

/-- The records with their unusable ones take all of the slots. A wide record that starts in the
last slot takes one more. -/
def Fill (slots : Nat) (records : List Record) : Prop :=
  (records.flatMap withFiller).length = slots
    ∨ (records.flatMap withFiller).length = slots + 1 ∧ records.getLast?.any isWide = true

theorem length_withFiller (r : Record) :
  r.withFiller.length = if r.isWide then 2 else 1
  := by
  rw [withFiller]
  split <;> rfl

/-- Records whose last one is wide take two places at least. -/
theorem two_le_of_wide {records : List Record} (h : records.getLast?.any isWide = true) :
  2 ≤ (records.flatMap withFiller).length
  := by
  cases hlast : records.getLast? with
  | none =>
      rw [hlast] at h
      contradiction
  | some last =>
      rw [hlast, Option.any_some] at h
      obtain ⟨before, after, rfl⟩ := List.append_of_mem (List.mem_of_getLast? hlast)
      have hlength := last.length_withFiller
      rw [if_pos h] at hlength
      rw [List.flatMap_append, List.flatMap_cons, List.length_append, List.length_append]
      omega

/-- No records fill no slots only. -/
theorem fill_nil_iff {slots : Nat} :
  Fill slots [] ↔ slots = 0
  := by
  rw [Fill, List.flatMap_nil, List.length_nil]
  constructor
  · rintro (rfl | ⟨-, hlast⟩)
    · rfl
    · contradiction
  · rintro rfl
    left
    rfl

/-- A narrow record leaves all slots but one to the others. -/
theorem fill_cons_of_narrow {slots : Nat} {r : Record} {records : List Record}
    (hnarrow : ¬ r.isWide = true) :
  Fill slots (r :: records) ↔ ∃ n, slots = n + 1 ∧ Fill n records
  := by
  have hlast : (r :: records).getLast?.any isWide = records.getLast?.any isWide := by
    rcases records with _ | ⟨r', records⟩
    · simpa using hnarrow
    · rw [List.getLast?_cons_cons]
  have hwide := @two_le_of_wide records
  rw [Fill, hlast, List.flatMap_cons, List.length_append, length_withFiller, if_neg hnarrow]
  constructor
  · rintro (hlength | ⟨hlength, h⟩)
    · use (records.flatMap withFiller).length, by omega
      apply Or.inl rfl
    · have hle := hwide h
      use (records.flatMap withFiller).length - 1, by omega
      apply Or.inr ⟨by omega, h⟩
  · rintro ⟨n, rfl, hlength | ⟨hlength, h⟩⟩
    · left
      omega
    · right
      use by omega

/-- A wide record leaves all slots but two to the others, or nothing if it starts in the last
slot. -/
theorem fill_cons_of_wide {slots : Nat} {r : Record} {records : List Record}
    (hwide : r.isWide = true) :
  Fill slots (r :: records) ↔ (slots = 1 ∧ records = []) ∨ ∃ n, slots = n + 2 ∧ Fill n records
  := by
  rw [Fill, List.flatMap_cons, List.length_append, length_withFiller, if_pos hwide]
  rcases records with _ | ⟨r', records⟩
  · simp only [fill_nil_iff]
    simp [hwide]
    omega
  · have hle := @two_le_of_wide (r' :: records)
    rw [List.getLast?_cons_cons]
    constructor
    · rintro (hlength | ⟨hlength, h⟩)
      · right
        use ((r' :: records).flatMap withFiller).length, by omega
        apply Or.inl rfl
      · right
        have hle := hle h
        use ((r' :: records).flatMap withFiller).length - 1, by omega
        apply Or.inr ⟨by omega, h⟩
    · rintro (⟨-, hnil⟩ | ⟨n, rfl, hlength | ⟨hlength, h⟩⟩)
      · contradiction
      · left
        omega
      · right
        use by omega

/-- No slots are filled by no records only. -/
theorem fill_zero_iff {records : List Record} :
  Fill 0 records ↔ records = []
  := by
  constructor
  · intro hfill
    cases records with
    | nil => rfl
    | cons r records =>
        by_cases hwide : r.isWide = true
        · rcases (fill_cons_of_wide hwide).mp hfill with ⟨hslots, -⟩ | ⟨n, hslots, -⟩
          · contradiction
          · contradiction
        · obtain ⟨n, hslots, -⟩ := (fill_cons_of_narrow hwide).mp hfill
          contradiction
  · rintro rfl
    apply fill_nil_iff.mpr rfl

/-- The bytes of records with their unusable ones are those of the records. -/
theorem flatMap_toBytes_withFiller (records : List Record) :
  (records.flatMap withFiller).flatMap toBytes = records.flatMap toBytes
  := by
  rw [List.flatMap_assoc]
  congr 1
  funext r
  rw [withFiller]
  split <;> simp [toBytes]

/-- Records that fill the slots are read back, with their unusable ones. In the last slot the reader
stops, whatever the record. -/
theorem readSlotsOnto_toBytes (done : List Record) {slots : Nat} {records : List Record}
    (hstored : ∀ r ∈ records, r.Stored) (hfill : Fill slots records) (rest : List UInt8) :
  readSlotsOnto done slots (records.flatMap toBytes ++ rest)
    = .ok (done.reverse ++ records.flatMap withFiller, rest)
  := by
  induction records generalizing done slots with
  | nil =>
      obtain rfl := fill_nil_iff.mp hfill
      rw [List.flatMap_nil, List.flatMap_nil, List.append_nil]
      rfl
  | cons r records ih =>
      obtain ⟨hr, hrecords⟩ := List.forall_mem_cons.mp hstored
      have hlast : readSlotsOnto done 1 (r.toBytes ++ rest)
          = .ok (done.reverse ++ r.withFiller, rest) := by
        rw [readSlotsOnto, read_inverts.map_write hr, List.reverse_append, List.reverse_reverse]
      by_cases hwide : r.isWide = true
      · rcases (fill_cons_of_wide hwide).mp hfill with ⟨rfl, rfl⟩ | ⟨n, rfl, hrest⟩
        · simpa using hlast
        · rw [List.flatMap_cons, List.append_assoc, readSlotsOnto, read_inverts.bind_write hr,
            if_pos hwide, ih _ hrecords hrest, List.flatMap_cons, withFiller, if_pos hwide]
          simp
      · obtain ⟨n, rfl, hrest⟩ := (fill_cons_of_narrow hwide).mp hfill
        cases n with
        | zero =>
            obtain rfl := fill_zero_iff.mp hrest
            simpa using hlast
        | succ n =>
            rw [List.flatMap_cons, List.append_assoc, readSlotsOnto, read_inverts.bind_write hr,
              if_neg hwide, ih _ hrecords hrest, List.flatMap_cons, withFiller, if_neg hwide]
            simp

/-- What is read into the slots are records that fill them, with their unusable ones. -/
theorem toBytes_of_readSlotsOnto {done all : List Record} {slots : Nat}
    (h : readSlotsOnto done slots input = .ok (all, rest)) :
  ∃ records : List Record, (∀ r ∈ records, r.Stored) ∧ Fill slots records
    ∧ all = done.reverse ++ records.flatMap withFiller ∧ records.flatMap toBytes ++ rest = input
  := by
  induction slots using Nat.twoStepInduction generalizing done input with
  | zero =>
      obtain ⟨rfl, rfl⟩ := pure_eq_ok.mp h
      use [], nofun, fill_nil_iff.mpr rfl, (List.append_nil _).symm
      rfl
  | one =>
      obtain ⟨r, hr, rfl, hinput⟩ := read_inverts.of_map h
      have hfill : Fill 1 [r] := by
        by_cases hwide : r.isWide = true
        · exact (fill_cons_of_wide hwide).mpr (.inl ⟨rfl, rfl⟩)
        · exact (fill_cons_of_narrow hwide).mpr ⟨0, rfl, fill_nil_iff.mpr rfl⟩
      use [r], List.forall_mem_singleton.mpr hr, hfill
      rw [List.reverse_append, List.reverse_reverse, List.flatMap_singleton, List.flatMap_singleton]
      use rfl
  | more slots ih ih' =>
      obtain ⟨r, middle, hr, hinput, h⟩ := read_inverts.of_bind h
      split at h
      · next hwide =>
        obtain ⟨records, hrecords, hfill, rfl, hmiddle⟩ := ih h
        use r :: records, List.forall_mem_cons.mpr ⟨hr, hrecords⟩,
          (fill_cons_of_wide hwide).mpr (.inr ⟨slots, rfl, hfill⟩)
        rw [List.flatMap_cons, List.flatMap_cons, List.append_assoc, hmiddle, withFiller,
          if_pos hwide]
        use by simp
      · next hnarrow =>
        obtain ⟨records, hrecords, hfill, rfl, hmiddle⟩ := ih' h
        use r :: records, List.forall_mem_cons.mpr ⟨hr, hrecords⟩,
          (fill_cons_of_narrow hnarrow).mpr ⟨slots + 1, rfl, hfill⟩
        rw [List.flatMap_cons, List.flatMap_cons, List.append_assoc, hmiddle, withFiller,
          if_neg hnarrow]
        use by simp

/-- A pool of records as it is stored: the records can be read, and with their unusable ones
they fill the slots. -/
def StoredIn (slots : Nat) (pool : List Record) : Prop :=
  ∃ records : List Record, (∀ r ∈ records, r.Stored) ∧ Fill slots records
    ∧ records.flatMap withFiller = pool

-- a wide record may start in the last slot
example : StoredIn 2 [.classRef 1, .long 7, .unusable] :=
  ⟨[.classRef 1, .long 7], by simp [Stored], .inr (by decide), rfl⟩

/-- The slots of a pool are read back, whatever follows. -/
theorem readSlots_inverts (slots : Nat) :
  Inverts (readSlots slots) (List.flatMap toBytes) (StoredIn slots)
  := by
  constructor
  · rintro _ ⟨records, hstored, hfill, rfl⟩ rest
    rw [flatMap_toBytes_withFiller]
    apply readSlotsOnto_toBytes [] hstored hfill
  · intro input pool rest h
    obtain ⟨records, hstored, hfill, rfl, hinput⟩ := toBytes_of_readSlotsOnto h
    rw [List.reverse_nil, List.nil_append, flatMap_toBytes_withFiller]
    use ⟨records, hstored, hfill, rfl⟩

end Record

end ClassForge
