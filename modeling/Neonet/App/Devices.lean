import Neonet.App.Flasher
import Neonet.Lib.Superseding
import Neonet.Storage.Integrity

/-!
# The known devices

A device is looked up under its alias or under its fingerprint, and both are texts.

* `ResolvesOwn` : what a directory says of the devices that were recorded.
* `Shadowed` : the alias of a device is the fingerprint of another one that was recorded later.
* `resolvesOwn_iff` : **each device is found under its fingerprint** exactly if none is shadowed.
-/

namespace Neonet

open FileTree FsM Superseding

/-! ### Resolving -/

/-- A record goes when the other one is added. -/
def DeviceRecord.Clashes (d record : DeviceRecord) : Prop :=
  d.identity = record.identity ∨ d.aliasName = record.aliasName

instance : DecidableRel DeviceRecord.Clashes := fun d record =>
  inferInstanceAs (Decidable (d.identity = record.identity ∨ d.aliasName = record.aliasName))

/-- The directory after these calls of `add`. -/
def recordAll (calls : List DeviceRecord) : ResolutionDirectory :=
  calls.foldl ResolutionDirectory.add emptyDirectory

section Resolve

variable (K : Primitives)

/-- `ResolutionDirectory::resolve`. -/
def ResolutionDirectory.resolve (directory : ResolutionDirectory) (idOrAlias : String) :
    Option DeviceRecord :=
  directory.devices.find? fun d =>
    d.aliasName = idOrAlias ∨ d.identity.fingerprint K = idOrAlias

/-- What is recorded once is found under its own names. -/
structure ResolvesOwn (calls : List DeviceRecord) : Prop where
  identities : ((recordAll calls).devices.map (·.identity)).Nodup
  aliases : ((recordAll calls).devices.map (·.aliasName)).Nodup
  own : ∀ d ∈ (recordAll calls).devices,
    (recordAll calls).resolve K (d.identity.fingerprint K) = some d
  latest : ∀ d ∈ (recordAll calls).devices,
    (∀ d' ∈ (recordAll calls).devices, d'.identity.fingerprint K ≠ d.aliasName) →
      (recordAll calls).resolve K d.aliasName =
        (calls.filter fun c => c.aliasName = d.aliasName).getLast?

/-- A record whose alias is the fingerprint of one that is added later, and both stay: nothing that
is added after either of them has its identity or its alias. -/
def Shadowed (calls : List DeviceRecord) : Prop :=
  ∃ pre d mid d' post, calls = pre ++ d :: mid ++ d' :: post ∧
    d.aliasName = d'.identity.fingerprint K ∧
      (∀ c ∈ mid ++ d' :: post, ¬ d.Clashes c) ∧ ∀ c ∈ post, ¬ d'.Clashes c

end Resolve

variable {K : Primitives} {calls : List DeviceRecord} {d d' record : DeviceRecord}

theorem devices_add {directory : ResolutionDirectory} : (directory.add record).devices =
    supersede DeviceRecord.Clashes directory.devices record := by
  rw [ResolutionDirectory.add, supersede]
  refine congrArg (· ++ [record]) (List.filter_congr fun d _ => ?_)
  simp only [DeviceRecord.Clashes, not_or, ne_eq]

/-- **What is recorded** is what nothing that came later clashes with. -/
theorem devices_recordAll : (recordAll calls).devices = survivors DeviceRecord.Clashes calls := by
  induction calls using List.reverseRecOn with
  | nil => rfl
  | append_singleton calls record ih =>
    rw [survivors_concat, ← ih, ← devices_add, recordAll, List.foldl_append, List.foldl_cons,
      List.foldl_nil, ← recordAll]

theorem not_clashes_of_pairwise : (recordAll calls).devices.Pairwise fun d d' =>
    d.identity ≠ d'.identity ∧ d.aliasName ≠ d'.aliasName := by
  rw [devices_recordAll]
  exact pairwise_survivors.imp fun h => not_or.1 h

theorem nodup_identities : ((recordAll calls).devices.map (·.identity)).Nodup :=
  List.pairwise_map.2 (not_clashes_of_pairwise.imp fun h => h.1)

theorem nodup_aliases : ((recordAll calls).devices.map (·.aliasName)).Nodup :=
  List.pairwise_map.2 (not_clashes_of_pairwise.imp fun h => h.2)

theorem nodup_devices : (recordAll calls).devices.Nodup := nodup_aliases.of_map _

/-- A recorded alias that is nobody's fingerprint leads to the latest record under it. -/
theorem resolve_alias (hd : d ∈ (recordAll calls).devices)
    (hfp : ∀ d' ∈ (recordAll calls).devices, d'.identity.fingerprint K ≠ d.aliasName) :
    (recordAll calls).resolve K d.aliasName =
      (calls.filter fun c => c.aliasName = d.aliasName).getLast? := by
  have hlast : (calls.filter fun c => c.aliasName = d.aliasName).getLast? = some d :=
    getLast?_filter_survivor DeviceRecord.aliasName (fun _ _ h => .inr h)
      (devices_recordAll ▸ hd)
  rw [hlast, ResolutionDirectory.resolve,
    find?_eq_some_iff_pair nodup_devices hd (by simp)]
  intro d' hpair
  have hne := List.pairwise_pair.1 (not_clashes_of_pairwise.sublist hpair)
  rw [decide_eq_false_iff_not, not_or]
  exact ⟨hne.2, hfp d' (hpair.subset (by simp))⟩

/-- A device is found under its fingerprint iff no record before its own has that as its alias. -/
theorem resolve_fingerprint
    (hcollision : NoCollision K (calls.map (·.identity.publicKey.toList)))
    (hd : d ∈ (recordAll calls).devices) :
    (recordAll calls).resolve K (d.identity.fingerprint K) = some d ↔
      ∀ d', [d', d].Sublist (recordAll calls).devices →
        d'.aliasName ≠ d.identity.fingerprint K := by
  rw [ResolutionDirectory.resolve, find?_eq_some_iff_pair nodup_devices hd (by simp)]
  refine forall₂_congr fun d' hpair => ?_
  have hcall : ∀ c ∈ (recordAll calls).devices, c.identity ∈ calls.map (·.identity) := by
    intro c hc
    rw [devices_recordAll] at hc
    exact List.mem_map_of_mem (mem_of_mem_survivors hc)
  have hother : d'.identity.fingerprint K ≠ d.identity.fingerprint K := by
    intro hsame
    have hne := List.pairwise_pair.1 (not_clashes_of_pairwise.sublist hpair)
    have hkeys : NoCollision K ((calls.map (·.identity)).map (·.publicKey.toList)) := by
      rw [List.map_map]
      exact hcollision
    exact hne.1 (hkeys.eq_of_fingerprint (hcall d' (hpair.subset (by simp))) (hcall d hd) hsame)
  rw [decide_eq_false_iff_not, not_or, and_iff_left hother]

/-- **Each device is found under its fingerprint**, whatever was added in whatever order, exactly if
none is shadowed. -/
theorem resolvesOwn_iff (hcollision : NoCollision K (calls.map (·.identity.publicKey.toList))) :
    ResolvesOwn K calls ↔ ¬ Shadowed K calls := by
  constructor
  · rintro h ⟨pre, d, mid, d', post, hcalls, halias, hd, hd'⟩
    have hpair : [d, d'].Sublist (recordAll calls).devices := by
      rw [devices_recordAll]
      exact pair_sublist_survivors.2 ⟨pre, mid, post, hcalls, hd, hd'⟩
    have hmem : d' ∈ (recordAll calls).devices := hpair.subset (by simp)
    exact (resolve_fingerprint hcollision hmem).1 (h.own d' hmem) d hpair halias
  · intro h
    refine ⟨nodup_identities, nodup_aliases, fun d hd => ?_, fun d hd => resolve_alias hd⟩
    rw [resolve_fingerprint hcollision hd]
    intro d' hpair halias
    rw [devices_recordAll] at hpair
    obtain ⟨pre, mid, post, hcalls, hd', hd⟩ := pair_sublist_survivors.1 hpair
    exact h ⟨pre, d', mid, d, post, hcalls, halias, hd', hd⟩

/-! ### A device that goes by the fingerprint of another one -/

/-- A device, … -/
def genuine : DeviceRecord := ⟨⟨digits 32 2⟩, "core", "neo", ⟨"", 22, ""⟩⟩

/-- … and one whose alias is its fingerprint. -/
def impostor : DeviceRecord :=
  ⟨⟨digits 32 1⟩, genuine.identity.fingerprint .sample, "neo", ⟨"", 22, ""⟩⟩

/-- It comes too late. -/
theorem resolvesOwn_iff_late : ResolvesOwn .sample [genuine, impostor] := by
  refine (resolvesOwn_iff (by decide +kernel)).2 ?_
  rintro ⟨pre, d, mid, d', post, hcalls, halias, -, -⟩
  have hpair : [d, d'].Sublist [genuine, impostor] := by
    rw [hcalls, List.append_assoc, List.cons_append]
    exact (List.nil_sublist pre).append
      (((List.nil_sublist mid).append (List.singleton_sublist.2 List.mem_cons_self)).cons_cons d)
  obtain ⟨rfl, rfl⟩ : d = genuine ∧ d' = impostor := by
    simpa using hpair.eq_of_length rfl
  exact absurd halias (by decide +kernel)

/-- **The other device is found under the fingerprint**, if it was recorded first. -/
theorem not_resolvesOwn :
    ¬ ∀ (K : Primitives) (calls : List DeviceRecord),
      NoCollision K (calls.map (·.identity.publicKey.toList)) → ResolvesOwn K calls := by
  intro h
  have hown := (h .sample [impostor, genuine] (by decide +kernel)).own genuine (by decide +kernel)
  have hfound : (recordAll [impostor, genuine]).resolve .sample
      (genuine.identity.fingerprint .sample) = some impostor := by decide +kernel
  rw [hfound] at hown
  exact absurd (Option.some.inj hown) (by decide +kernel)

end Neonet
