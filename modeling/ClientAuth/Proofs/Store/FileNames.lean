import ClientAuth.Proofs.Encoding.Canonical
import ClientAuth.Vault.Directory

/-!
# File names, and files by name

No two keys share the name of an entry (`FileStore.entryName_injective`), no two random numbers a temporary name, and no
temporary name is that of an entry (`FileStore.temporaryName_ne_entryName`). In a directory no two files share a name
(`Directory.Distinct`), and each action on it is told by what is found under names before and after.
-/

namespace ClientAuth

/-- Different octets have different hexadecimal texts. -/
theorem Hex.encode_injective : Function.Injective Hex.encode := by
  intro bs bs' h
  have hback := Hex.decode?_encode bs
  rw [h, Hex.decode?_encode bs'] at hback
  exact (Option.some.inj hback).symm

/-- An octet has two digits. -/
theorem Hex.length_encode (bs : Bytes) : (Hex.encode bs).toList.length = 2 * bs.length := by
  rw [Hex.encode, String.toList_ofList]
  induction bs with
  | nil => rfl
  | cons b bs ih =>
    rw [List.flatMap_cons, List.length_append, ih, List.length_cons]
    simp only [Hex.ofByte, List.length_cons, List.length_nil]
    omega

/-- Two numbers of 64 bits that agree octet by octet are the same. -/
theorem eq_of_octets {m n : UInt64}
    (h : ∀ i < 8, UInt8.ofNat (m.toNat >>> (8 * (7 - i))) = UInt8.ofNat (n.toNat >>> (8 * (7 - i)))) : m = n := by
  have hbit : ∀ (k : UInt64) (i : Nat), k.toNat.testBit i = ((k.toNat >>> (8 * (i / 8))) % 2 ^ 8).testBit (i % 8) := by
    intro k i
    rw [Nat.testBit_mod_two_pow, Nat.testBit_shiftRight, Nat.div_add_mod]
    simp [Nat.mod_lt]
  refine UInt64.toNat_inj.1 (Nat.eq_of_testBit_eq fun i => ?_)
  by_cases hi : i < 64
  · have hoctet := congrArg UInt8.toNat (h (7 - i / 8) (by omega))
    rw [UInt8.toNat_ofNat', UInt8.toNat_ofNat', show 7 - (7 - i / 8) = i / 8 by omega] at hoctet
    rw [hbit m, hbit n, hoctet]
  · have hlarge : ∀ k : UInt64, k.toNat < 2 ^ i := fun k =>
      k.toNat_lt.trans_le (Nat.pow_le_pow_right (by decide) (Nat.le_of_not_lt hi))
    rw [Nat.testBit_lt_two_pow (hlarge m), Nat.testBit_lt_two_pow (hlarge n)]

namespace FileStore

/-- Different keys have different files. -/
theorem entryName_injective : Function.Injective entryName := by
  intro key key' h
  have hlists := congrArg String.toList h
  rw [entryName, entryName, String.toList_append, String.toList_append] at hlists
  have hhex := String.toList_inj.1 (List.append_cancel_right hlists)
  exact Utf8.encode_injective (Hex.encode_injective hhex)

/-- Different random numbers give different temporary names, whatever the keys. -/
theorem suffix_of_temporaryName {key key' : String} {suffix suffix' : UInt64}
    (h : temporaryName key suffix = temporaryName key' suffix') : suffix = suffix' := by
  have hlists := congrArg String.toList h
  simp only [temporaryName, String.toList_append] at hlists
  have hdigits := List.append_inj_right' (List.append_cancel_right hlists) (by simp [Hex.length_encode])
  have hoctets := Hex.encode_injective (String.toList_inj.1 hdigits)
  exact eq_of_octets fun i hi => List.map_inj_left.1 hoctets i (List.mem_range.2 hi)

/-- No temporary name is that of an entry. -/
theorem temporaryName_ne_entryName (key : String) (suffix : UInt64) (key' : String) :
    temporaryName key suffix ≠ entryName key' := by
  intro h
  have hlast := congrArg (fun name : String => name.toList.getLast?) h
  have htmp : ".tmp".toList.getLast? = some 'p' := rfl
  have hentry : ".entry".toList.getLast? = some 'y' := rfl
  simp only [temporaryName, entryName, String.toList_append, List.getLast?_append, htmp, hentry, Option.some_or] at hlast
  exact absurd (Option.some.inj hlast) (by decide)

/-- Keys that are not empty are accepted. -/
theorem checkKey_of_ne {key : String} (h : key ≠ "") : checkKey key = .ok () := by
  have hempty : ¬key.isEmpty = true := fun he => h (String.isEmpty_iff.1 he)
  simp only [checkKey, if_neg hempty]

/-- A load with a key that is accepted reads the file of the key. -/
theorem load_of_checkKey {key : String} (h : checkKey key = .ok ()) (s : FileStore) :
    s.load key = entryOf (s.directory.read (entryName key)) := by
  simp only [load, h, bind, Except.bind]

end FileStore

namespace Directory

variable {d : Directory} {name : String} {content : Bytes}

/-- No two files share a name. -/
def Distinct (d : Directory) : Prop := (d.files.map (·.1)).Nodup

theorem distinct_empty : Directory.empty.Distinct := List.nodup_nil

theorem Distinct.erase (h : d.Distinct) (name : String) : (d.erase name).Distinct :=
  List.Nodup.sublist (List.filter_sublist.map _) h

theorem Distinct.insert (h : d.Distinct) (name : String) (content : Bytes) : (d.insert name content).Distinct := by
  refine List.nodup_cons.2 ⟨?_, h.erase name⟩
  rintro hmem
  obtain ⟨file, hfile, hname⟩ := List.mem_map.1 hmem
  have hne := (List.mem_filter.1 hfile).2
  simp [hname] at hne

/-- To be without a file that is not there is nothing new. -/
theorem erase_of_none (h : d.get? name = none) : d.erase name = d := by
  have hall : ∀ file ∈ d.files, (file.1 != name) = true := by
    intro file hfile
    have hne := List.lookup_eq_none_iff.1 h file hfile
    simpa [bne_comm] using hne
  rw [erase, List.filter_eq_self.2 hall]

/-- A file that was just written is found. -/
theorem get?_insert_self (d : Directory) (name : String) (content : Bytes) :
    (d.insert name content).get? name = some content :=
  (get?_insert d name content name).trans (if_pos rfl)

/-- All other files stay. -/
theorem get?_insert_of_ne {n : String} (h : n ≠ name) : (d.insert name content).get? n = d.get? n :=
  (get?_insert d name content n).trans (if_neg h)

/-- A file that was just deleted is not found. -/
theorem get?_erase_self (d : Directory) (name : String) : (d.erase name).get? name = none :=
  (get?_erase d name name).trans (if_pos rfl)

/-- All other files stay. -/
theorem get?_erase_of_ne {n : String} (h : n ≠ name) : (d.erase name).get? n = d.get? n :=
  (get?_erase d name n).trans (if_neg h)

/-- A file that is left was there before. -/
theorem get?_of_erase {n : String} (h : (d.erase name).get? n = some content) : d.get? n = some content := by
  have hne : n ≠ name := by
    rintro rfl
    rw [get?_erase_self] at h
    cases h
  exact (get?_erase_of_ne hne).symm.trans h

/-- The names are those under which something is found. -/
theorem mem_names_iff : name ∈ d.names ↔ ∃ content, d.get? name = some content := by
  rw [← Option.isSome_iff_exists, get?, List.lookup_isSome_iff, names, List.mem_mergeSort, List.mem_map]
  simp only [beq_iff_eq, @eq_comm _ name]

/-- Files with names of their own are listed once each. -/
theorem Distinct.nodup_names (h : d.Distinct) : d.names.Nodup :=
  (List.mergeSort_perm _ _).nodup_iff.2 h

/-- A file is written. -/
theorem perform_write (hname : checkName name = .ok ()) (content : Bytes) :
    d.perform (.write name content) = .ok (d.insert name content) := by
  simp only [perform, hname]
  rfl

/-- A file that is there gets its new name. -/
theorem perform_rename {old : String} (hold : checkName old = .ok ()) (hname : checkName name = .ok ())
    (hget : d.get? old = some content) : d.perform (.rename old name) = .ok ((d.erase old).insert name content) := by
  simp only [perform, hold, hname, hget]
  rfl

/-- A file that is there is deleted. -/
theorem perform_delete (hname : checkName name = .ok ()) (hget : d.get? name = some content) :
    d.perform (.delete name) = .ok (d.erase name) := by
  simp only [perform, hname, hget]
  rfl

/-- A file that is not there cannot be deleted. -/
theorem perform_delete_of_none (hname : checkName name = .ok ()) (hget : d.get? name = none) :
    d.perform (.delete name) = .error (failure "NotFound") := by
  simp only [perform, hname, hget]
  rfl

/-- The entry that is read from a file is the text that is in it, or none without a file. -/
theorem entryOf_read (hname : checkName name = .ok ()) {entry : Option String}
    (hget : d.get? name = entry.map Utf8.encode) : FileStore.entryOf (d.read name) = .ok entry := by
  simp only [read, hname, hget]
  cases entry with
  | none => rfl
  | some blob =>
    simp only [bind, Except.bind, Option.map_some, pure, Except.pure, FileStore.entryOf, Utf8.decode_encode]

end Directory

end ClientAuth
