import GattHub.Radio.Advertising
import Mathlib.Data.List.Nodup

/-! What an advertisement makes of entries that the platform lists in any order. Entries under
different keys have a single ascending arrangement, so the order in which they come does not show. -/

namespace GattHub

section Ascending

variable {α : Type} {rank : α → Nat} {l l' : List α}

theorem pairwise_mergeSort_rank (hl : (l.map rank).Nodup) :
    (l.mergeSort fun a b => rank a ≤ rank b).Pairwise fun a b => rank a < rank b := by
  have hperm := List.mergeSort_perm l fun a b => rank a ≤ rank b
  have hle : (l.mergeSort fun a b => rank a ≤ rank b).Pairwise fun a b => rank a ≤ rank b := by
    refine (List.pairwise_mergeSort (fun a b c hab hbc => ?_) (fun a b => ?_) l).imp
      of_decide_eq_true
    · exact decide_eq_true (Nat.le_trans (of_decide_eq_true hab) (of_decide_eq_true hbc))
    · simpa using Nat.le_total (rank a) (rank b)
  have hne : (l.mergeSort fun a b => rank a ≤ rank b).Pairwise fun a b => rank a ≠ rank b :=
    List.pairwise_map.mp ((hperm.map rank).nodup_iff.mpr hl)
  exact (hle.and hne).imp fun h => Nat.lt_of_le_of_ne h.1 h.2

theorem mergeSort_rank_eq_of_perm (h : l'.Perm l) (hl : (l.map rank).Nodup) :
    (l'.mergeSort fun a b => rank a ≤ rank b) = l.mergeSort fun a b => rank a ≤ rank b := by
  have hl' : (l'.map rank).Nodup := (h.map rank).nodup_iff.mpr hl
  refine List.Perm.eq_of_pairwise (fun a b _ _ hab hba => absurd hab (Nat.lt_asymm hba))
    (pairwise_mergeSort_rank hl') (pairwise_mergeSort_rank hl) ?_
  exact (List.mergeSort_perm l' _).trans (h.trans (List.mergeSort_perm l _).symm)

/-- The arrangement begins with the least element. -/
theorem head?_mergeSort_rank (hl : (l.map rank).Nodup) {a : α} :
    (l.mergeSort fun a b => rank a ≤ rank b).head? = some a ↔
      a ∈ l ∧ ∀ b ∈ l, rank a ≤ rank b := by
  have hperm := List.mergeSort_perm l fun a b => rank a ≤ rank b
  have hsorted := pairwise_mergeSort_rank hl
  have hmem (b : α) : b ∈ l ↔ b ∈ l.mergeSort fun a b => rank a ≤ rank b := hperm.mem_iff.symm
  simp only [hmem]
  generalize (l.mergeSort fun a b => rank a ≤ rank b) = sorted at hsorted
  cases sorted with
  | nil => simp
  | cons first rest =>
    obtain ⟨hfirst, -⟩ := List.pairwise_cons.mp hsorted
    rw [List.head?_cons, Option.some.injEq]
    constructor
    · rintro rfl
      refine ⟨List.mem_cons_self, fun b hb => ?_⟩
      rcases List.mem_cons.mp hb with rfl | hb
      · exact Nat.le_refl _
      · exact Nat.le_of_lt (hfirst b hb)
    · rintro ⟨ha, hleast⟩
      rcases List.mem_cons.mp ha with rfl | ha
      · rfl
      · have hlt := hfirst a ha
        have hle := hleast first List.mem_cons_self
        omega

end Ascending

namespace Radio.Properties

/-- The same properties, with the entries of both tables listed in whatever order. -/
structure Reorders (p p' : Properties) : Prop where
  rssi_eq : p'.rssi = p.rssi
  powerLevel_eq : p'.powerLevel = p.powerLevel
  localName_eq : p'.localName = p.localName
  services_eq : p'.services = p.services
  manufacturerData : p'.manufacturerData.entries.Perm p.manufacturerData.entries
  serviceData : p'.serviceData.entries.Perm p.serviceData.entries

variable (p : Properties)

theorem nodup_companies : (p.manufacturerData.entries.map fun e => e.1.toNat).Nodup := by
  have hkeys := p.manufacturerData.nodup_keys.map (f := UInt16.toNat) fun a b => UInt16.toNat_inj.mp
  rwa [List.map_map] at hkeys

theorem nodup_services :
    ((p.serviceData.entries.map fun e => (⟨e.1, e.2⟩ : ServiceData)).map
      fun d => d.uuid.bits.toNat).Nodup := by
  have hinj : Function.Injective fun u : Uuid => u.bits.toNat := fun u v h =>
    Uuid.le_antisymm (Nat.le_of_eq h) (Nat.le_of_eq h.symm)
  have hkeys := p.serviceData.nodup_keys.map hinj
  rw [List.map_map] at hkeys ⊢
  exact hkeys

theorem manufacturerPayload_eq :
    p.manufacturerPayload = (p.manufacturerData.entries.mergeSort fun a b =>
      a.1.toNat ≤ b.1.toNat).head?.map fun e => Octets.littleEndian16 e.1 ++ e.2 := rfl

theorem sortedServiceData_eq :
    p.sortedServiceData = (p.serviceData.entries.map fun e => ⟨e.1, e.2⟩).mergeSort
      fun a b : ServiceData => a.uuid.bits.toNat ≤ b.uuid.bits.toNat := rfl

theorem advertisement_of_reorders {p p' : Properties} (h : p.Reorders p') (peer : PeerId) :
    p'.advertisement peer = p.advertisement peer := by
  have hpayload : p'.manufacturerPayload = p.manufacturerPayload := by
    rw [manufacturerPayload_eq, manufacturerPayload_eq,
      mergeSort_rank_eq_of_perm h.manufacturerData p.nodup_companies]
  have hdata : p'.sortedServiceData = p.sortedServiceData := by
    rw [sortedServiceData_eq, sortedServiceData_eq,
      mergeSort_rank_eq_of_perm (h.serviceData.map _) p.nodup_services]
  simp only [advertisement, h.rssi_eq, h.powerLevel_eq, h.localName_eq, h.services_eq, hpayload,
    hdata]

/-- The low byte of a number comes first. -/
theorem littleEndian16_eq_iff {n : UInt16} {low high : UInt8} :
    Octets.littleEndian16 n = [low, high] ↔ n.toNat = low.toNat + 256 * high.toNat := by
  have hn := n.toNat_lt
  have hlow := low.toNat_lt
  have hhigh := high.toNat_lt
  simp only [Octets.littleEndian16, List.cons.injEq, and_true, ← UInt8.toNat_inj,
    UInt16.toNat_toUInt8, UInt16.toNat_shiftRight, UInt16.reduceToNat, Nat.reduceMod,
    Nat.shiftRight_eq_div_pow]
  omega

/-- The payload of a least company, if any company is listed. -/
theorem manufacturerPayload_eq_some {payload : Octets} :
    p.manufacturerPayload = some payload ↔
      ∃ company data, p.manufacturerData.get? company = some data ∧
        (∀ other ∈ p.manufacturerData.keys, company ≤ other) ∧
        payload = Octets.littleEndian16 company ++ data := by
  rw [manufacturerPayload_eq, Option.map_eq_some_iff]
  simp only [head?_mergeSort_rank p.nodup_companies]
  constructor
  · rintro ⟨⟨company, data⟩, ⟨hmem, hleast⟩, rfl⟩
    refine ⟨company, data, Table.mem_entries_iff.mp hmem, fun other hother => ?_, rfl⟩
    obtain ⟨e, he, rfl⟩ := List.mem_map.mp hother
    exact hleast e he
  · rintro ⟨company, data, hget, hleast, rfl⟩
    refine ⟨(company, data), ⟨Table.mem_entries_iff.mpr hget, fun e he => ?_⟩, rfl⟩
    exact hleast e.1 (List.mem_map_of_mem he)

theorem manufacturerPayload_eq_none :
    p.manufacturerPayload = none ↔ p.manufacturerData.entries = [] := by
  rw [manufacturerPayload_eq, Option.map_eq_none_iff, List.head?_eq_none_iff,
    ← List.length_eq_zero_iff, List.length_mergeSort, List.length_eq_zero_iff]

/-- The order in which the platform lists what a device advertises does not show. The bytes for
services come in strictly ascending order, each entry once. Of the companies just the least shows:
its number, low byte first, and then its bytes. -/
theorem advertisement_of_entries (peer : PeerId) :
    (∀ p', p.Reorders p' → p'.advertisement peer = p.advertisement peer) ∧
      ((p.advertisement peer).serviceData.Pairwise
        fun a b => a.uuid.bits.toNat < b.uuid.bits.toNat) ∧
      (p.advertisement peer).serviceData.Perm (p.serviceData.entries.map fun e => ⟨e.1, e.2⟩) ∧
      ((p.advertisement peer).manufacturerData = none ↔ p.manufacturerData.entries = []) ∧
      ∀ payload, (p.advertisement peer).manufacturerData = some payload ↔
        ∃ company data low high, p.manufacturerData.get? company = some data ∧
          (∀ other ∈ p.manufacturerData.keys, company ≤ other) ∧
          company.toNat = low.toNat + 256 * high.toNat ∧ payload = low :: high :: data := by
  refine ⟨fun p' h => advertisement_of_reorders h peer, ?_, ?_, p.manufacturerPayload_eq_none,
    fun payload => p.manufacturerPayload_eq_some.trans ?_⟩
  · exact pairwise_mergeSort_rank p.nodup_services
  · exact List.mergeSort_perm _ _
  · constructor
    · rintro ⟨company, data, hget, hleast, rfl⟩
      exact ⟨company, data, _, _, hget, hleast, littleEndian16_eq_iff.mp rfl, rfl⟩
    · rintro ⟨company, data, low, high, hget, hleast, hbytes, rfl⟩
      refine ⟨company, data, hget, hleast, ?_⟩
      rw [littleEndian16_eq_iff.mpr hbytes]
      rfl

/-- Two companies and two services, listed one way and the other. -/
def twoCompanies : Properties :=
  ⟨none, none, none, [], .ofList [(0x0201, [7]), (0x004C, [2, 21])],
    .ofList [(.ofNat 2, [5]), (.ofNat 1, [6])]⟩

def twoCompaniesRelisted : Properties :=
  ⟨none, none, none, [], .ofList [(0x004C, [2, 21]), (0x0201, [7])],
    .ofList [(.ofNat 1, [6]), (.ofNat 2, [5])]⟩

theorem advertisement_of_entries_relisted :
    twoCompanies.Reorders twoCompaniesRelisted ∧
      twoCompaniesRelisted.advertisement default = twoCompanies.advertisement default ∧
      (twoCompanies.advertisement default).manufacturerData = some [0x4C, 0x00, 2, 21] := by
  obtain ⟨horder, -, -, -, hpayload⟩ := twoCompanies.advertisement_of_entries default
  have hreorders : twoCompanies.Reorders twoCompaniesRelisted :=
    ⟨rfl, rfl, rfl, rfl, List.Perm.swap _ _ [], List.Perm.swap _ _ []⟩
  have hkeys : twoCompanies.manufacturerData.keys = [0x0201, 0x004C] := by decide
  refine ⟨hreorders, horder _ hreorders, (hpayload _).mpr ⟨0x004C, [2, 21], 0x4C, 0x00, ?_⟩⟩
  exact ⟨by decide, by simp [hkeys], by decide, rfl⟩

end Radio.Properties

end GattHub
