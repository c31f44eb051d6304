import LoadableSched.Manifest.Image
import LoadableSched.Proofs.Table

/-!
Native images and the manifests that they stand for. Each part of an image is read back where it was
written and is accepted nowhere else, so that an image cannot be cut short and stands for one manifest.
Only properties can be written in several ways: their order and all but the last value under a key are
lost, and the way an image is made is the shortest.
-/

namespace LoadableSched

theorem Bytes.ofNat_toNat (bytes : Bytes) : Bytes.ofNat bytes.length bytes.toNat = bytes := by
  induction bytes with
  | nil => rfl
  | cons b rest ih =>
    have low : b.toNat < 256 := b.toNat_lt
    have digit : (b.toNat + 256 * Bytes.toNat rest) % 256 = b.toNat := by omega
    have others : (b.toNat + 256 * Bytes.toNat rest) / 256 = Bytes.toNat rest := by omega
    rw [List.length_cons, Bytes.toNat, Bytes.ofNat, digit, others, ih, UInt8.ofNat_toNat]

namespace Image

variable {α : Type}

/-- Reading takes from the front what was written there, and accepts nothing else. -/
def Inverts (take : Take α) (put : α → Bytes) (fits : α → Prop) : Prop :=
  ∀ bytes x rest, take bytes = some (x, rest) ↔ fits x ∧ bytes = put x ++ rest

theorem takeBytes_iff {count : Nat} {bytes digits rest : Bytes} :
    takeBytes count bytes = some (digits, rest) ↔ digits.length = count ∧ bytes = digits ++ rest := by
  unfold takeBytes
  constructor
  · intro taken
    split at taken
    · rename_i enough
      simp only [Option.some.injEq, Prod.mk.injEq] at taken
      obtain ⟨rfl, rfl⟩ := taken
      exact ⟨List.length_take_of_le enough, (List.take_append_drop count bytes).symm⟩
    · cases taken
  · rintro ⟨rfl, rfl⟩
    simp

theorem takeNumber_iff {width : Nat} {read : Nat → α} (write : α → Nat) {fits : α → Prop}
    (known : ∀ x, fits x → write x < Nat.pow 256 width ∧ read (write x) = x)
    (back : ∀ n < Nat.pow 256 width, fits (read n) ∧ write (read n) = n) :
    Inverts (fun bytes => (takeBytes width bytes).map fun (digits, rest) => (read (Bytes.toNat digits), rest))
      (fun x => Bytes.ofNat width (write x)) fits := by
  intro bytes x rest
  simp only [Option.map_eq_some_iff, Prod.exists, takeBytes_iff, Prod.mk.injEq]
  constructor
  · rintro ⟨digits, tail, ⟨length, rfl⟩, rfl, rfl⟩
    have bound : Bytes.toNat digits < Nat.pow 256 width := length ▸ Bytes.toNat_lt digits
    obtain ⟨fit, same⟩ := back _ bound
    refine ⟨fit, ?_⟩
    rw [same, ← length, Bytes.ofNat_toNat]
  · rintro ⟨fit, rfl⟩
    obtain ⟨bound, same⟩ := known x fit
    refine ⟨_, _, ⟨Bytes.length_ofNat width _, rfl⟩, ?_, rfl⟩
    have small : write x % Nat.pow 256 width = write x := Nat.mod_eq_of_lt bound
    rw [Bytes.toNat_ofNat, small, same]

theorem takeWord_inverts : Inverts takeWord putWord fun _ => True := by
  refine takeNumber_iff UInt32.toNat ?_ ?_
  · intro n _
    exact ⟨n.toNat_lt, UInt32.ofNat_toNat⟩
  · intro n bound
    exact ⟨trivial, UInt32.toNat_ofNat_of_lt' bound⟩

theorem takeLength_inverts : Inverts takeLength putLength (· < UInt64.size) :=
  takeNumber_iff id (fun _ fit => ⟨fit, rfl⟩) fun _ bound => ⟨bound, rfl⟩

theorem takeBool_inverts : Inverts takeBool putBool fun _ => True := by
  intro bytes b rest
  unfold takeBool putBool
  split
  · cases b <;> simp [eq_comm]
  · cases b <;> simp [eq_comm]
  · rename_i none one
    simp only [reduceCtorEq, true_and, false_iff]
    rintro rfl
    cases b with
    | false => exact none rest rfl
    | true => exact one rest rfl

def TextFits (text : String) : Prop := text.utf8ByteSize < UInt64.size

instance (text : String) : Decidable (TextFits text) := inferInstanceAs (Decidable (_ < _))

theorem takeText_inverts : Inverts takeText putText TextFits := by
  intro bytes text rest
  simp only [takeText, Option.bind_eq_bind, Option.bind_eq_some_iff, Prod.exists, Option.some.injEq,
    Prod.mk.injEq, takeLength_inverts _ _ _, takeBytes_iff]
  constructor
  · rintro ⟨count, _, ⟨bound, rfl⟩, digits, _, ⟨rfl, rfl⟩, text, read, rfl, rfl⟩
    unfold String.fromUTF8? at read
    split at read
    · cases Option.some.inj read
      refine ⟨bound, ?_⟩
      simp [putText, String.fromUTF8]
    · cases read
  · rintro ⟨fit, rfl⟩
    let digits := text.toUTF8.data.toList
    refine ⟨_, _, ⟨fit, List.append_assoc ..⟩, digits, rest, ⟨rfl, rfl⟩, text, ?_, rfl, rfl⟩
    have valid : (ByteArray.mk digits.toArray).IsValidUTF8 := text.isValidUTF8
    rw [String.fromUTF8?, dif_pos valid]
    rfl

theorem takeMany_iff {take : Take α} {put : α → Bytes} {fits : α → Prop} (item : Inverts take put fits)
    {count : Nat} {bytes rest : Bytes} {xs : List α} :
    takeMany take count bytes = some (xs, rest) ↔
      xs.length = count ∧ (∀ x ∈ xs, fits x) ∧ bytes = (xs.map put).flatten ++ rest := by
  induction count generalizing bytes xs rest with
  | zero =>
    simp only [takeMany, Option.some.injEq, Prod.mk.injEq, List.length_eq_zero_iff]
    constructor
    · rintro ⟨rfl, rfl⟩
      simp
    · rintro ⟨rfl, _, rfl⟩
      simp
  | succ count ih =>
    simp only [takeMany, Option.bind_eq_bind, Option.bind_eq_some_iff, Prod.exists, Option.some.injEq,
      Prod.mk.injEq, item _ _ _, ih]
    constructor
    · rintro ⟨x, _, ⟨fit, rfl⟩, others, _, ⟨rfl, fits, rfl⟩, rfl, rfl⟩
      exact ⟨rfl, List.forall_mem_cons.mpr ⟨fit, fits⟩, by simp⟩
    · rintro ⟨length, fits, rfl⟩
      cases xs with
      | nil => cases length
      | cons x others =>
        obtain ⟨fit, fits⟩ := List.forall_mem_cons.mp fits
        exact ⟨x, _, ⟨fit, by simp⟩, others, rest, ⟨Nat.succ.inj length, fits, rfl⟩, rfl, rfl⟩

theorem takeList_inverts {take : Take α} {put : α → Bytes} {fits : α → Prop} (item : Inverts take put fits)
    (solid : ∀ x, put x ≠ []) :
    Inverts (takeList take) (putList put) fun xs => xs.length < UInt64.size ∧ ∀ x ∈ xs, fits x := by
  intro bytes xs rest
  have long : xs.length ≤ (xs.map put).flatten.length := by
    clear item
    induction xs with
    | nil => exact Nat.le_refl 0
    | cons x others ih =>
      have some := List.length_pos_iff.mpr (solid x)
      simp only [List.length_cons, List.map_cons, List.flatten_cons, List.length_append]
      omega
  simp only [takeList, Option.bind_eq_bind, Option.bind_eq_some_iff, Prod.exists,
    takeLength_inverts _ _ _]
  constructor
  · rintro ⟨count, tail, ⟨bound, rfl⟩, taken⟩
    split at taken
    · cases taken
    · obtain ⟨rfl, fits, rfl⟩ := (takeMany_iff item).mp taken
      exact ⟨⟨bound, fits⟩, by simp [putList]⟩
  · rintro ⟨⟨bound, fits⟩, rfl⟩
    refine ⟨_, _, ⟨bound, List.append_assoc ..⟩, ?_⟩
    rw [if_neg (by simp only [List.length_append]; omega)]
    exact (takeMany_iff item).mpr ⟨rfl, fits, rfl⟩

theorem takeKind_inverts : Inverts takeKind (putWord ∘ kindNumber) fun _ => True := by
  intro bytes kind rest
  simp only [takeKind, Option.bind_eq_bind, Option.bind_eq_some_iff, Prod.exists, Option.some.injEq,
    Prod.mk.injEq, takeWord_inverts _ _ _, true_and, Function.comp_apply]
  have numbered : ∀ n : UInt32, MapKind.all[n.toNat]? = some kind → n = kindNumber kind := by
    intro n found
    apply UInt32.toNat_inj.mp
    have few : n.toNat < 4 := (List.getElem?_eq_some_iff.mp found).1
    have which : n.toNat = 0 ∨ n.toNat = 1 ∨ n.toNat = 2 ∨ n.toNat = 3 := by omega
    rcases which with is | is | is | is <;> rw [is] at found ⊢ <;> cases Option.some.inj found <;> rfl
  constructor
  · rintro ⟨n, _, rfl, _, found, rfl, rfl⟩
    rw [numbered n found]
  · rintro rfl
    refine ⟨_, _, rfl, kind, ?_, rfl, rfl⟩
    cases kind <;> rfl

theorem takeEntryPoint_inverts :
    Inverts takeEntryPoint putEntryPoint fun e => TextFits e.name ∧ TextFits e.sectionName := by
  rintro bytes ⟨name, sectionName, autoAttach⟩ rest
  simp only [takeEntryPoint, Option.bind_eq_bind, Option.bind_eq_some_iff, Prod.exists,
    Option.some.injEq, Prod.mk.injEq, EntryPoint.mk.injEq, takeText_inverts _ _ _,
    takeBool_inverts _ _ _, putEntryPoint, List.append_assoc]
  constructor
  · rintro ⟨_, _, ⟨first, rfl⟩, _, _, ⟨second, rfl⟩, _, _, ⟨_, rfl⟩, ⟨rfl, rfl, rfl⟩, rfl⟩
    exact ⟨⟨first, second⟩, rfl⟩
  · rintro ⟨⟨first, second⟩, rfl⟩
    exact ⟨_, _, ⟨first, rfl⟩, _, _, ⟨second, rfl⟩, _, _, ⟨trivial, rfl⟩, ⟨rfl, rfl, rfl⟩, rfl⟩

theorem takeMap_inverts : Inverts takeMap putMap fun s => TextFits s.name := by
  rintro bytes ⟨name, kind, keySize, valueSize, capacity⟩ rest
  simp only [takeMap, Option.bind_eq_bind, Option.bind_eq_some_iff, Prod.exists, Option.some.injEq,
    Prod.mk.injEq, MapSpec.mk.injEq, Layout.mk.injEq, takeText_inverts _ _ _, takeKind_inverts _ _ _,
    takeWord_inverts _ _ _, putMap, Function.comp_apply, List.append_assoc, true_and]
  constructor
  · rintro ⟨_, _, ⟨fit, rfl⟩, _, _, rfl, _, _, rfl, _, _, rfl, _, _, rfl, ⟨rfl, rfl, rfl, rfl, rfl⟩, rfl⟩
    exact ⟨fit, rfl⟩
  · rintro ⟨fit, rfl⟩
    exact ⟨_, _, ⟨fit, rfl⟩, _, _, rfl, _, _, rfl, _, _, rfl, _, _, rfl, ⟨rfl, rfl, rfl, rfl, rfl⟩, rfl⟩

theorem takeProperty_inverts : Inverts takeProperty putProperty fun p => TextFits p.1 ∧ TextFits p.2 := by
  rintro bytes ⟨key, value⟩ rest
  simp only [takeProperty, Option.bind_eq_bind, Option.bind_eq_some_iff, Prod.exists,
    Option.some.injEq, Prod.mk.injEq, takeText_inverts _ _ _, putProperty, List.append_assoc]
  constructor
  · rintro ⟨_, _, ⟨first, rfl⟩, _, _, ⟨second, rfl⟩, ⟨rfl, rfl⟩, rfl⟩
    exact ⟨⟨first, second⟩, rfl⟩
  · rintro ⟨⟨first, second⟩, rfl⟩
    exact ⟨_, _, ⟨first, rfl⟩, _, _, ⟨second, rfl⟩, ⟨rfl, rfl⟩, rfl⟩

end Image

open Image

structure Manifest.HeadFits (m : Manifest) : Prop where
  name : TextFits m.name
  license : TextFits m.license
  entryPoints : m.entryPoints.length < UInt64.size ∧
    ∀ e ∈ m.entryPoints, TextFits e.name ∧ TextFits e.sectionName
  maps : m.maps.length < UInt64.size ∧ ∀ s ∈ m.maps, TextFits s.name

def PropertiesFit (pairs : List (String × String)) : Prop :=
  pairs.length < UInt64.size ∧ ∀ p ∈ pairs, TextFits p.1 ∧ TextFits p.2

instance (pairs : List (String × String)) : Decidable (PropertiesFit pairs) :=
  inferInstanceAs (Decidable (_ ∧ _))

/-- Lengths are 64-bit numbers and properties stand in order of their keys, as in every manifest that
there is room for. -/
structure Manifest.Fits (m : Manifest) : Prop extends HeadFits m where
  properties : PropertiesFit m.properties.entries
  ordered : m.properties.Ordered

/-- The manifest can be written with its properties listed like this, in any order and with values that
do not count because later ones follow under their keys. -/
structure Manifest.Lists (m : Manifest) (pairs : List (String × String)) : Prop extends HeadFits m where
  listed : PropertiesFit pairs
  properties : m.properties = Table.ofList pairs

namespace Manifest

theorem Fits.lists {m : Manifest} (fits : m.Fits) : m.Lists m.properties.entries :=
  ⟨fits.toHeadFits, fits.properties, fits.ordered.ofList_entries.symm⟩

theorem Lists.fits {m : Manifest} {pairs : List (String × String)} (lists : m.Lists pairs) : m.Fits := by
  obtain ⟨few, fit⟩ := lists.listed
  have size : m.properties.entries.length ≤ pairs.length := by
    have count := Table.length_flatMap_ofList (fun p => [p]) pairs
    rw [← lists.properties] at count
    simpa only [List.flatMap_singleton'] using count
  refine ⟨lists.toHeadFits, ⟨by omega, ?_⟩, ?_⟩
  · intro p member
    rw [lists.properties] at member
    exact fit p (Table.mem_ofList member)
  · rw [lists.properties]
    exact Table.ofList_ordered pairs

theorem firstRepeated_eq_none_iff (seen names : List String) :
    firstRepeated seen names = none ↔ names.Nodup ∧ ∀ name ∈ names, name ∉ seen := by
  induction names generalizing seen with
  | nil => simp [firstRepeated]
  | cons name rest ih =>
    unfold firstRepeated
    split
    · rename_i known
      simp only [reduceCtorEq, false_iff, not_and]
      intro _ fresh
      exact fresh name List.mem_cons_self (List.contains_iff_mem.mp known)
    · rename_i unknown
      rw [List.contains_iff_mem] at unknown
      rw [ih, List.nodup_cons, List.forall_mem_cons]
      constructor
      · rintro ⟨distinct, fresh⟩
        refine ⟨⟨fun again => fresh name again List.mem_cons_self, distinct⟩, unknown, ?_⟩
        exact fun other member => fun old => fresh other member (List.mem_cons_of_mem _ old)
      · rintro ⟨⟨once, distinct⟩, _, fresh⟩
        refine ⟨distinct, fun other member => ?_⟩
        simp only [List.mem_cons, not_or]
        exact ⟨fun same => once (same ▸ member), fresh other member⟩

def NamesOnce (m : Manifest) : Prop :=
  (m.entryPoints.map (·.name)).Nodup ∧ (m.maps.map (·.name)).Nodup

instance (m : Manifest) : Decidable m.NamesOnce := inferInstanceAs (Decidable (_ ∧ _))

theorem validate_ok_iff {m : Manifest} : m.validate = .ok () ↔ m.NamesOnce := by
  have programs := firstRepeated_eq_none_iff [] (m.entryPoints.map (·.name))
  have maps := firstRepeated_eq_none_iff [] (m.maps.map (·.name))
  simp only [List.not_mem_nil, not_false_eq_true, implies_true, and_true] at programs maps
  rw [NamesOnce, ← programs, ← maps]
  unfold validate
  split
  · rename_i found
    simp [found]
  · rename_i none
    split <;> rename_i found <;> simp [none, found]

end Manifest

namespace Image

def spell (m : Manifest) (pairs : List (String × String)) : Bytes :=
  putText m.name ++ putText m.license ++ putList putEntryPoint m.entryPoints ++ putList putMap m.maps
    ++ putList putProperty pairs

theorem putManifest_eq (m : Manifest) : putManifest m = spell m m.properties.entries := rfl

theorem putText_ne_nil (text : String) : putText text ≠ [] := by
  intro none
  have length := congrArg List.length none
  simp [putText, putLength, Bytes.length_ofNat] at length

theorem takeManifest_iff {bytes rest : Bytes} {m : Manifest} :
    takeManifest bytes = some (m, rest) ↔ ∃ pairs, m.Lists pairs ∧ bytes = spell m pairs ++ rest := by
  obtain ⟨name, license, entryPoints, maps, properties⟩ := m
  have programs := takeList_inverts takeEntryPoint_inverts
    (by simp [putEntryPoint, putText_ne_nil])
  have specs := takeList_inverts takeMap_inverts (by simp [putMap, putText_ne_nil])
  have listed := takeList_inverts takeProperty_inverts (by simp [putProperty, putText_ne_nil])
  simp only [takeManifest, Option.bind_eq_bind, Option.bind_eq_some_iff, Prod.exists, Option.some.injEq,
    Prod.mk.injEq, Manifest.mk.injEq, takeText_inverts _ _ _, programs _ _ _, specs _ _ _,
    listed _ _ _, spell, List.append_assoc]
  constructor
  · rintro ⟨_, _, ⟨named, rfl⟩, _, _, ⟨licensed, rfl⟩, _, _, ⟨programs, rfl⟩, _, _, ⟨maps, rfl⟩, pairs, _,
      ⟨fit, rfl⟩, ⟨rfl, rfl, rfl, rfl, rfl⟩, rfl⟩
    exact ⟨pairs, ⟨⟨named, licensed, programs, maps⟩, fit, rfl⟩, rfl⟩
  · rintro ⟨pairs, ⟨⟨named, licensed, programs, maps⟩, fit, same⟩, rfl⟩
    exact ⟨_, _, ⟨named, rfl⟩, _, _, ⟨licensed, rfl⟩, _, _, ⟨programs, rfl⟩, _, _, ⟨maps, rfl⟩, pairs, rest,
      ⟨fit, rfl⟩, ⟨rfl, rfl, rfl, rfl, same.symm⟩, rfl⟩

/-- Bytes stand for a manifest if they begin like an image of it, with its properties listed in some
way. -/
theorem decode_ok_iff {bytes : Bytes} {m : Manifest} :
    decode bytes = .ok m ↔
      ∃ pairs rest, m.Lists pairs ∧ bytes = magic ++ spell m pairs ++ rest := by
  unfold decode
  constructor
  · intro decoded
    split at decoded
    · rename_i foreign
      obtain ⟨payload, rfl⟩ := List.isPrefixOf_iff_prefix.mp foreign
      rw [List.drop_left] at decoded
      split at decoded
      · rename_i found
        cases Except.ok.inj decoded
        obtain ⟨pairs, lists, rfl⟩ := takeManifest_iff.mp found
        exact ⟨pairs, _, lists, (List.append_assoc ..).symm⟩
      · cases decoded
    · cases decoded
  · rintro ⟨pairs, rest, lists, rfl⟩
    have read : takeManifest (spell m pairs ++ rest) = some (m, rest) :=
      takeManifest_iff.mpr ⟨pairs, lists, rfl⟩
    have own : magic.isPrefixOf (magic ++ spell m pairs ++ rest) = true :=
      List.isPrefixOf_iff_prefix.mpr ⟨_, (List.append_assoc ..).symm⟩
    rw [if_pos own, List.append_assoc, List.drop_left, read]

theorem decode_foreign_iff {bytes : Bytes} :
    decode bytes = .error .notExecutable ↔ ¬ magic <+: bytes := by
  unfold decode
  by_cases own : magic <+: bytes
  · rw [if_pos (List.isPrefixOf_iff_prefix.mpr own)]
    split <;> simp [own, show ¬ Errno.invalid = .notExecutable from nofun]
  · rw [if_neg fun is => own (List.isPrefixOf_iff_prefix.mp is)]
    simp [own]

theorem decode_corrupt {bytes : Bytes} (own : magic <+: bytes) (unread : ∀ m, decode bytes ≠ .ok m) :
    decode bytes = .error .invalid := by
  unfold decode at unread ⊢
  rw [if_pos (List.isPrefixOf_iff_prefix.mpr own)] at unread ⊢
  split
  · rename_i m _ found
    exact absurd (by rw [found]) (unread m)
  · rfl

theorem spell_unique {m m' : Manifest} {pairs pairs' : List (String × String)} {rest rest' : Bytes}
    (lists : m.Lists pairs) (lists' : m'.Lists pairs')
    (same : spell m pairs ++ rest = spell m' pairs' ++ rest') : m = m' ∧ rest = rest' := by
  have first : takeManifest (spell m pairs ++ rest) = some (m, rest) :=
    takeManifest_iff.mpr ⟨pairs, lists, rfl⟩
  have second : takeManifest (spell m pairs ++ rest) = some (m', rest') :=
    takeManifest_iff.mpr ⟨pairs', lists', same⟩
  exact Prod.mk.inj (Option.some.inj (first.symm.trans second))

theorem decode_encode_append {m : Manifest} (fits : m.Fits) (extra : Bytes) :
    decode (encode m ++ extra) = .ok m :=
  decode_ok_iff.mpr ⟨_, extra, fits.lists, rfl⟩

theorem decode_encode {m : Manifest} (fits : m.Fits) : decode (encode m) = .ok m := by
  simpa using decode_encode_append fits []

theorem encode_inj {m m' : Manifest} (fits : m.Fits) (fits' : m'.Fits) (same : encode m = encode m') :
    m = m' := by
  have bodies : putManifest m = putManifest m' := List.append_cancel_left same
  exact (spell_unique fits.lists fits'.lists (congrArg (· ++ []) bodies)).1

theorem decode_truncated {m : Manifest} (fits : m.Fits) {bytes : Bytes} (start : bytes <+: encode m)
    (short : bytes ≠ encode m) (own : magic <+: bytes) : decode bytes = .error .invalid := by
  refine decode_corrupt own fun m' decoded => ?_
  obtain ⟨pairs, rest, lists, rfl⟩ := decode_ok_iff.mp decoded
  obtain ⟨extra, whole⟩ := start
  have bodies : spell m' pairs ++ (rest ++ extra) = spell m m.properties.entries ++ [] := by
    have whole : magic ++ (spell m' pairs ++ (rest ++ extra)) = magic ++ (putManifest m ++ []) := by
      simpa [encode, List.append_assoc] using whole
    exact List.append_cancel_left whole
  -- Nothing is left of a whole image, and so nothing was missing.
  obtain ⟨_, nothing⟩ := spell_unique lists fits.lists bodies
  obtain ⟨_, rfl⟩ := List.append_eq_nil_iff.mp nothing
  exact absurd (by simpa using whole) short

theorem length_putManifest_le {m : Manifest} {pairs : List (String × String)} (lists : m.Lists pairs) :
    (putManifest m).length ≤ (spell m pairs).length := by
  have shorter := Table.length_flatMap_ofList putProperty pairs
  rw [← lists.properties, List.flatMap_def, List.flatMap_def] at shorter
  simp only [putManifest_eq, spell, putList, putLength, List.length_append, Bytes.length_ofNat]
  omega

theorem native_of_once {m : Manifest} (once : m.NamesOnce) : native m = .ok ⟨m, encode m⟩ := by
  rw [native, ofParts, Manifest.validate_ok_iff.mpr once]

theorem eq_of_native {m : Manifest} {image : Image} (made : native m = .ok image) : image = ⟨m, encode m⟩ := by
  unfold native ofParts at made
  split at made
  · cases made
  · exact (Except.ok.inj made).symm

theorem once_of_native {m : Manifest} {image : Image} (made : native m = .ok image) : m.NamesOnce := by
  rw [← Manifest.validate_ok_iff]
  unfold native ofParts at made
  split at made
  · cases made
  · next valid => exact valid

/-- A manifest with no name twice has an image, which is read as that manifest whatever follows it, as no
other one, and as an error if anything is cut off. What is read as a manifest begins with it, its
properties listed so that the last value under each key counts, and is no shorter than its image. -/
theorem images_are_faithful :
    (∀ m : Manifest, m.Fits → m.NamesOnce → ∃ image, native m = .ok image ∧
      (∀ extra, decode (image.bytes ++ extra) = .ok m) ∧
      ∀ bytes, bytes <+: image.bytes → bytes ≠ image.bytes → magic <+: bytes →
        decode bytes = .error .invalid) ∧
    (∀ (m m' : Manifest) (image image' : Image), m.Fits → m'.Fits → native m = .ok image →
      native m' = .ok image' → image.bytes = image'.bytes → m = m') ∧
    (∀ bytes, decode bytes = .error .notExecutable ↔ ¬ magic <+: bytes) ∧
    (∀ bytes m, decode bytes = .ok m →
      m.Fits ∧
      (∃ pairs rest, bytes = magic ++ spell m pairs ++ rest ∧
        ∀ key, m.property? key = (pairs.reverse.find? (·.1 = key)).map (·.2)) ∧
      (m.NamesOnce → ∃ image, native m = .ok image ∧ decode image.bytes = .ok m ∧
        image.bytes.length ≤ bytes.length)) := by
  refine ⟨?_, ?_, fun _ => decode_foreign_iff, ?_⟩
  · intro m fits once
    refine ⟨_, native_of_once once, decode_encode_append fits, ?_⟩
    intro bytes start short own
    exact decode_truncated fits start short own
  · intro m m' image image' fits fits' made made' same
    cases eq_of_native made
    cases eq_of_native made'
    exact encode_inj fits fits' same
  · intro bytes m decoded
    obtain ⟨pairs, rest, lists, rfl⟩ := decode_ok_iff.mp decoded
    refine ⟨lists.fits, ⟨pairs, rest, rfl, fun key => ?_⟩, fun once => ?_⟩
    · rw [Manifest.property?, lists.properties, Table.get?_ofList]
    · refine ⟨_, native_of_once once, ?_, ?_⟩
      · simpa using decode_encode_append lists.fits []
      · have shortest := length_putManifest_le lists
        simp only [encode, List.length_append]
        omega

theorem small_image_is_faithful :
    let m : Manifest := ⟨"own", "GPL", [⟨"pick", "kprobe/schedule", true⟩], [MapSpec.structOps "ops"],
      Table.ofList [("policy", "own")]⟩
    m.Fits ∧ m.NamesOnce ∧ ∃ image, native m = .ok image ∧ decode (image.bytes ++ [7, 7]) = .ok m := by
  intro m
  have fits : m.Fits := {
    name := by decide
    license := by decide
    entryPoints := by decide
    maps := by decide
    properties := by decide
    ordered := Table.ofList_ordered _ }
  have once : m.NamesOnce := by decide
  obtain ⟨image, made, back, _⟩ := images_are_faithful.1 m fits once
  exact ⟨fits, once, image, made, back [7, 7]⟩

end Image

end LoadableSched
