import InternalDNS.ContextPlugin
import InternalDNS.ReservedScopes

/-! # Reserved names are answered from the managed zone

A context holds its managed zone and the private zones attached to it, and a query is answered from
the longest apex that is a label suffix of its name.  A zone is attached only if `Shadows` finds that
it lies neither at or below a reserved subtree nor between the subtree and the managed zone, so no such
zone has the longest apex for a reserved name.
-/
namespace InternalDNS

open Go List DNS

variable {E : Externals} {a t name apex zoneName : GoString} {scope : ReservedScope}
  {regs : List DNSRegistration}

/-- A label starts behind a dot that follows a letter or a digit. -/
theorem isLabelSuffix_of_append (ha : Plain a) (ht : t ≠ []) (h : IsLabelSuffix (a ++ '.' :: t) name) :
    IsLabelSuffix t name := by
  obtain ⟨k, -, hk⟩ := h
  have hname : name = (name.take k ++ a) ++ '.' :: t := by rw [append_assoc, hk, take_append_drop]
  obtain ⟨c, hc, hplain⟩ := ha.last_of_suffix (suffix_append (name.take k) a)
  generalize name.take k ++ a = front at hname hc
  subst hname
  refine ⟨front.length + 1, mem_filter.mpr ⟨?_, ?_⟩, by simp⟩
  · simpa using length_pos_iff.mpr ht
  · have hescape : front.rtakeWhile (· = '\\') = [] := by
      rw [rtakeWhile_eq_nil_iff]
      intro hne hlast
      rw [getLast?_eq_some_getLast hne, Option.mem_some, of_decide_eq_true hlast] at hc
      rw [← hc] at hplain
      revert hplain
      decide
    simp [isLabelStart, escapedAt, hescape, length_pos_iff.mpr ht]

/-- **Reserved names are answered from the managed zone.**  For a query name at or below a reserved
subtree of the managed zone, no zone that does not shadow the subtrees has an apex that is a label
suffix of the name and longer than the managed one, and in a context that holds the managed zone and
only such zones beside it the managed zone is selected. -/
theorem managed_zone_selected (ha : Plain apex)
    (hscope : scope ∈ registrationScopes E zoneName apex regs)
    (hname : BelowApex E name (absoluteName E.cases (scope.name ++ '.' :: apex))) :
    (∀ domain, scopesShadows E (registrationScopes E zoneName apex regs) domain apex = false →
      ¬ (BelowApex E name (absoluteName E.cases domain) ∧
        (absoluteName E.cases apex).length < (absoluteName E.cases domain).length)) ∧
    ∀ apexes, absoluteName E.cases apex ∈ apexes → (∀ x ∈ apexes, x = absoluteName E.cases apex ∨
        ∃ domain, x = absoluteName E.cases domain ∧
          scopesShadows E (registrationScopes E zoneName apex regs) domain apex = false) →
      matchZone E apexes (canonicalQueryName E name) = some (absoluteName E.cases apex) := by
  have hplain := plain_of_mem_registrationScopes hscope
  rw [absoluteName_of_plain (hplain.append ha), belowApex_iff] at hname
  have hbelow : BelowApex E name (absoluteName E.cases apex) := by
    rw [absoluteName_of_plain ha, belowApex_iff]
    exact isLabelSuffix_of_append hplain (by simp) (by simpa using hname)
  -- such a zone, if the name is below it, is above the managed one
  have hshort : ∀ domain, scopesShadows E (registrationScopes E zoneName apex regs) domain apex = false →
      BelowApex E name (absoluteName E.cases domain) →
      (absoluteName E.cases domain).length < (absoluteName E.cases apex).length := by
    intro domain hshadows hdomain
    simp only [scopesShadows, any_eq_false, Bool.or_eq_true, Bool.and_eq_true, within_iff, not_or]
      at hshadows
    obtain ⟨hnot, hbetween⟩ := hshadows scope hscope
    rw [canonicalName_of_plain (hplain.append ha)] at hnot hbetween
    rw [canonicalName_of_plain ha] at hbetween
    rw [absoluteName_of_plain ha, belowApex_iff] at hbelow
    rw [absoluteName_eq, belowApex_iff] at hdomain
    simp only [absoluteName_eq, canonicalName_of_plain ha, length_append]
    by_contra hlong
    rcases le_total (canonicalName E.cases domain).length (scope.name ++ '.' :: apex).length with
      hle | hle
    · exact hbetween ⟨atOrBelow_of_isLabelSuffix hname hdomain hle,
        atOrBelow_of_isLabelSuffix hdomain hbelow (by omega)⟩
    · exact hnot (atOrBelow_of_isLabelSuffix hdomain hname hle)
  refine ⟨fun domain hshadows h => absurd (hshort domain hshadows h.1) (by omega), ?_⟩
  intro apexes hmem hall
  obtain ⟨longest, hlongest, hmatch, hin, hle⟩ := matchZone_of_belowApex hmem hbelow
  rcases hall longest hlongest with rfl | ⟨domain, rfl, hshadows⟩
  · exact hmatch
  · exact absurd (hle _ hmem hbelow) (by have := hshort domain hshadows hin; omega)

/-- With `db` reserved in the managed zone, a name in it is answered from there, also if the zone above
is attached. -/
theorem reserved_query_managed :
    matchZone .reference [lit "internal.", lit "corp.internal."]
      (canonicalQueryName .reference (lit "A.db.corp.internal")) = some (lit "corp.internal.") := by
  have hscope : (⟨lit "db", lit "reg-1"⟩ : ReservedScope) ∈
      registrationScopes .reference (lit "managed") (lit "corp.internal")
        [⟨lit "db", lit "reg-1", 1, 1, false, lit "managed", lit "db", [], 300, [lit "db"]⟩] := by
    decide +kernel
  have hname : BelowApex .reference (lit "A.db.corp.internal") (lit "db.corp.internal.") :=
    ⟨2, by decide +kernel, by decide +kernel⟩
  refine (managed_zone_selected (isPlain_iff.mp (by decide)) hscope hname).2 _ (by decide) ?_
  exact forall_mem_cons.mpr ⟨.inr ⟨lit "internal", rfl, by decide +kernel⟩,
    forall_mem_singleton.mpr (.inl rfl)⟩

end InternalDNS
