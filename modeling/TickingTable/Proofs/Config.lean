import Mathlib
import TickingTable.Config.Basic

/-! Which configurations are accepted, and that an accepted one that has an authorization sends no
other header that could be taken for it. -/

namespace TickingTable

/-- The texts differ at most in the case of ASCII letters. -/
def Recased (s t : String) : Prop :=
  List.Forall₂ (fun c d => c = d.toLower ∨ c = d.toUpper) s.toList t.toList

theorem toLower_eq_toLower_iff {c d : Char} :
    c.toLower = d.toLower ↔ c = d.toLower ∨ c = d.toUpper := by
  constructor
  · intro h
    by_cases hc : c.isUpper
    · right
      calc c = c.toUpper := (Char.toUpper_eq_of_not_isLower (Char.not_isLower_of_isUpper hc)).symm
        _ = c.toLower.toUpper := c.toUpper_toLower_eq_toUpper.symm
        _ = d.toLower.toUpper := by rw [h]
        _ = d.toUpper := d.toUpper_toLower_eq_toUpper
    · exact Or.inl ((Char.toLower_eq_of_not_isUpper hc).symm.trans h)
  · rintro (rfl | rfl)
    · exact d.toLower_toLower_eq_toLower
    · exact d.toLower_toUpper_eq_toLower

theorem sameIgnoringCase_iff {s t : String} : sameIgnoringCase s t = true ↔ Recased s t := by
  simp only [sameIgnoringCase, beq_iff_eq, Recased, ← toLower_eq_toLower_iff]
  rw [← List.forall₂_eq_eq_eq, List.forall₂_map_left_iff, List.forall₂_map_right_iff]

instance (s t : String) : Decidable (Recased s t) := decidable_of_iff _ sameIgnoringCase_iff

/-- Texts that differ from one text in case only are looked up alike. -/
theorem sameIgnoringCase_congr {s t : String} (h : Recased s t) (name : String) :
    sameIgnoringCase name s = sameIgnoringCase name t := by
  have hsame := sameIgnoringCase_iff.2 h
  simp only [sameIgnoringCase, beq_iff_eq] at hsame
  rw [sameIgnoringCase, sameIgnoringCase, hsame]

namespace ClientConfig

variable {c : ClientConfig} {authorized : Bool} {name : String} {e e' : ConfigError}
  {l : List (String × String)}

/-- The names of the headers that the configuration adds, in ascending order. -/
def extraNames (c : ClientConfig) : List String := c.extraHeaders.entries.map Prod.fst

/-- What is wrong with the name of an extra header, where `authorized` says whether there is an
authorization beside it. -/
inductive NameFault (authorized : Bool) (name : String) : ConfigError → Prop
  | invalid (h : name = "" ∨ ∃ c ∈ name.toList, isBlank c = true) :
    NameFault authorized name (.invalidHeaderName name)
  | conflicting (ha : authorized = true) (h : Recased name authorizationHeader) :
    NameFault authorized name (.conflictingHeader name)

theorem isValidName_eq_false : isValidName name = false ↔
    name = "" ∨ ∃ c ∈ name.toList, isBlank c = true := by
  simp [isValidName, or_iff_not_imp_left]

/-- No letter of the name of the authorization is blank in any case. -/
theorem isValidName_of_recased (h : Recased name authorizationHeader) :
    isValidName name = true := by
  have hall : (authorizationHeader.toList.all fun d =>
      !isBlank d.toLower && !isBlank d.toUpper) = true := by cbv
  have hletters : ∀ d ∈ authorizationHeader.toList,
      isBlank d.toLower = false ∧ isBlank d.toUpper = false := by simpa using hall
  have hsame := sameIgnoringCase_iff.2 h
  simp only [sameIgnoringCase, beq_iff_eq] at hsame
  rw [← Bool.not_eq_false, isValidName_eq_false]
  rintro (rfl | ⟨c, hc, hblank⟩)
  · cases hsame
  · have hmem : c.toLower ∈ authorizationHeader.toList.map Char.toLower :=
      hsame ▸ List.mem_map_of_mem hc
    obtain ⟨d, hd, hlower⟩ := List.mem_map.1 hmem
    rcases toLower_eq_toLower_iff.1 hlower.symm with rfl | rfl
    · rw [(hletters d hd).1] at hblank
      cases hblank
    · rw [(hletters d hd).2] at hblank
      cases hblank

theorem NameFault.unique (h : NameFault authorized name e) (h' : NameFault authorized name e') :
    e = e' := by
  have hnot : Recased name authorizationHeader →
      ¬ (name = "" ∨ ∃ c ∈ name.toList, isBlank c = true) := by
    intro hrecased
    rw [← isValidName_eq_false, isValidName_of_recased hrecased]
    exact nofun
  cases h with
  | invalid hinvalid =>
    cases h' with
    | invalid _ => rfl
    | conflicting _ hrecased => exact absurd hinvalid (hnot hrecased)
  | conflicting _ hrecased =>
    cases h' with
    | invalid hinvalid => exact absurd hinvalid (hnot hrecased)
    | conflicting _ _ => rfl

/-- What is wrong with the least of the names that have a fault. -/
def LeastFault (authorized : Bool) (names : List String) (e : ConfigError) : Prop :=
  ∃ name ∈ names, NameFault authorized name e ∧
    ∀ other ∈ names, other < name → ∀ e, ¬ NameFault authorized other e

theorem LeastFault.unique {names : List String} (h : LeastFault authorized names e)
    (h' : LeastFault authorized names e') : e = e' := by
  obtain ⟨name, hmem, hfault, hleast⟩ := h
  obtain ⟨other, hmem', hfault', hleast'⟩ := h'
  rcases lt_trichotomy name other with hlt | rfl | hlt
  · exact absurd hfault (hleast' name hmem hlt e)
  · exact hfault.unique hfault'
  · exact absurd hfault' (hleast other hmem' hlt e')

theorem not_nameFault (hvalid : isValidName name = true)
    (hother : ¬ (authorized && sameIgnoringCase name authorizationHeader) = true) :
    ∀ e, ¬ NameFault authorized name e := by
  intro e hfault
  cases hfault with
  | invalid h =>
    rw [isValidName_eq_false.2 h] at hvalid
    cases hvalid
  | conflicting ha h => exact hother (by simp [ha, sameIgnoringCase_iff.2 h])

/-- The check stops at the first name if that has a fault, and else goes on to the others. -/
theorem headerFault?_cons (authorized : Bool) (name value : String) (l : List (String × String)) :
    (∃ e, NameFault authorized name e ∧ headerFault? authorized ((name, value) :: l) = some e) ∨
      (∀ e, ¬ NameFault authorized name e) ∧
        headerFault? authorized ((name, value) :: l) = headerFault? authorized l := by
  rw [headerFault?]
  split
  · next hinvalid =>
    have hname : isValidName name = false := by simpa using hinvalid
    exact Or.inl ⟨_, .invalid (isValidName_eq_false.1 hname), rfl⟩
  · next hvalid =>
    split
    · next hconflict =>
      obtain ⟨ha, hsame⟩ := Bool.and_eq_true_iff.1 hconflict
      exact Or.inl ⟨_, .conflicting ha (sameIgnoringCase_iff.1 hsame), rfl⟩
    · next hother => exact Or.inr ⟨not_nameFault (by simpa using hvalid) hother, rfl⟩

/-- The check goes through the names in ascending order, so that it stops at the least fault. -/
theorem leastFault_of_eq_some (hl : l.Pairwise fun a b => a.1 < b.1)
    (h : headerFault? authorized l = some e) : LeastFault authorized (l.map Prod.fst) e := by
  induction l with
  | nil => cases h
  | cons entry l ih =>
    obtain ⟨name, value⟩ := entry
    obtain ⟨hfirst, hrest⟩ := List.pairwise_cons.1 hl
    have hnone : ∀ other ∈ ((name, value) :: l).map Prod.fst, ¬ other < name := by
      intro other hother
      rcases List.mem_cons.1 hother with rfl | hother
      · exact lt_irrefl _
      · obtain ⟨entry, hentry, rfl⟩ := List.mem_map.1 hother
        exact (hfirst entry hentry).asymm
    rcases headerFault?_cons authorized name value l with ⟨e', hfault, heq⟩ | ⟨hgood, heq⟩
    · obtain rfl : e' = e := Option.some.inj (heq.symm.trans h)
      exact ⟨name, List.mem_cons_self, hfault, fun other ho hlt => absurd hlt (hnone other ho)⟩
    · obtain ⟨later, hmem, hfault, hleast⟩ := ih hrest (heq.symm.trans h)
      refine ⟨later, List.mem_cons_of_mem _ hmem, hfault, ?_⟩
      intro other ho hlt
      rcases List.mem_cons.1 ho with rfl | ho
      · exact hgood
      · exact hleast other ho hlt

theorem headerFault?_eq_none : headerFault? authorized l = none ↔
    ∀ name ∈ l.map Prod.fst, ∀ e, ¬ NameFault authorized name e := by
  induction l with
  | nil => simp [headerFault?]
  | cons entry l ih =>
    obtain ⟨name, value⟩ := entry
    rw [List.map_cons, List.forall_mem_cons, ← ih]
    rcases headerFault?_cons authorized name value l with ⟨e, hfault, heq⟩ | ⟨hgood, heq⟩
    · rw [heq]
      exact iff_of_false nofun fun h => h.1 e hfault
    · rw [heq]
      exact (and_iff_right hgood).symm

/-- A configuration that can be used. -/
structure Accepted (c : ClientConfig) : Prop where
  batchSize : 0 < c.subscription.batchSize
  maxMessageSize : 0 < c.subscription.maxMessageSize
  names : ∀ name ∈ c.extraNames, name ≠ "" ∧ ∀ ch ∈ name.toList, isBlank ch = false
  apart : c.authorization.isSome = true →
    ∀ name ∈ c.extraNames, ¬ Recased name authorizationHeader

/-- Why a configuration cannot be used: one of the sizes is zero, the size of a batch before that of
a message, or else the least name of an extra header that has a fault. -/
inductive Refused (c : ClientConfig) : ConfigError → Prop
  | batchSize (h : c.subscription.batchSize = 0) : Refused c .zeroBatchSize
  | maxMessageSize (hb : 0 < c.subscription.batchSize) (h : c.subscription.maxMessageSize = 0) :
    Refused c .zeroMaxMessageSize
  | header {e : ConfigError} (hb : 0 < c.subscription.batchSize)
    (hm : 0 < c.subscription.maxMessageSize)
    (h : LeastFault c.authorization.isSome c.extraNames e) : Refused c e

/-- The faults of names are the reasons why extra headers are refused. -/
theorem not_nameFault_iff :
    (∀ name ∈ c.extraNames, ∀ e, ¬ NameFault c.authorization.isSome name e) ↔
      (∀ name ∈ c.extraNames, name ≠ "" ∧ ∀ ch ∈ name.toList, isBlank ch = false) ∧
      (c.authorization.isSome = true →
        ∀ name ∈ c.extraNames, ¬ Recased name authorizationHeader) := by
  constructor
  · intro h
    refine ⟨fun name hname => ⟨?_, ?_⟩, fun ha name hname hrecased => ?_⟩
    · exact fun hempty => h name hname _ (.invalid (Or.inl hempty))
    · intro ch hch
      rw [← Bool.not_eq_true]
      exact fun hblank => h name hname _ (.invalid (Or.inr ⟨ch, hch, hblank⟩))
    · exact h name hname _ (.conflicting ha hrecased)
  · rintro ⟨hnames, hapart⟩ name hname e hfault
    cases hfault with
    | invalid hinvalid =>
      rcases hinvalid with hempty | ⟨ch, hch, hblank⟩
      · exact (hnames name hname).1 hempty
      · rw [(hnames name hname).2 ch hch] at hblank
        cases hblank
    | conflicting ha hrecased => exact hapart ha name hname hrecased

theorem validate_eq_ok : c.validate = .ok () ↔ c.Accepted := by
  have hchecks : c.validate = .ok () ↔ c.subscription.batchSize ≠ 0 ∧
      c.subscription.maxMessageSize ≠ 0 ∧
      headerFault? c.authorization.isSome c.extraHeaders.entries = none := by
    unfold validate
    split
    · next hb => simp [hb]
    · next hb =>
      split
      · next hm => simp [hm]
      · next hm =>
        split
        · next e hfault => simp [hfault]
        · next hfault => simp [hb, hm, hfault]
  rw [hchecks, ← UInt32.pos_iff_ne_zero, ← UInt32.pos_iff_ne_zero, headerFault?_eq_none]
  constructor
  · rintro ⟨hb, hm, hfaults⟩
    obtain ⟨hnames, hapart⟩ := not_nameFault_iff.1 hfaults
    exact ⟨hb, hm, hnames, hapart⟩
  · rintro ⟨hb, hm, hnames, hapart⟩
    exact ⟨hb, hm, not_nameFault_iff.2 ⟨hnames, hapart⟩⟩

theorem refused_of_validate (h : c.validate = .error e) : c.Refused e := by
  unfold validate at h
  split at h
  · next hb =>
    cases h
    exact .batchSize hb
  · next hb =>
    split at h
    · next hm =>
      cases h
      exact .maxMessageSize (UInt32.pos_iff_ne_zero.2 hb) hm
    · next hm =>
      split at h
      · next e' hfault =>
        cases h
        exact .header (UInt32.pos_iff_ne_zero.2 hb) (UInt32.pos_iff_ne_zero.2 hm)
          (leastFault_of_eq_some c.extraHeaders.sorted hfault)
      · cases h

theorem headerFault?_of_leastFault (hl : l.Pairwise fun a b => a.1 < b.1)
    (h : LeastFault authorized (l.map Prod.fst) e) : headerFault? authorized l = some e := by
  cases hres : headerFault? authorized l with
  | none =>
    obtain ⟨name, hname, hfault, _⟩ := h
    exact absurd hfault (headerFault?_eq_none.1 hres name hname e)
  | some e' => rw [h.unique (leastFault_of_eq_some hl hres)]

theorem validate_of_refused (h : c.Refused e) : c.validate = .error e := by
  cases h with
  | batchSize hzero => simp [validate, hzero]
  | maxMessageSize hb hzero => simp [validate, UInt32.pos_iff_ne_zero.1 hb, hzero]
  | header hb hm hleast =>
    have hfault := headerFault?_of_leastFault c.extraHeaders.sorted hleast
    simp [validate, UInt32.pos_iff_ne_zero.1 hb, UInt32.pos_iff_ne_zero.1 hm, hfault]

theorem validate_eq_error : c.validate = .error e ↔ c.Refused e :=
  ⟨refused_of_validate, validate_of_refused⟩

/-- The authorization stands in front of the extra headers, and none of these has its name. -/
theorem filter_headers {a : String} (h : c.Accepted) (ha : c.authorization = some a) :
    (c.headers.filter fun header => Recased header.1 authorizationHeader) =
      [(authorizationHeader, a)] := by
  have hown : Recased authorizationHeader authorizationHeader :=
    sameIgnoringCase_iff.1 (by simp [sameIgnoringCase])
  have hextra : (c.extraHeaders.entries.filter fun header =>
      Recased header.1 authorizationHeader) = [] := by
    rw [List.filter_eq_nil_iff]
    intro header hheader hrecased
    have hname : header.1 ∈ c.extraNames := List.mem_map_of_mem hheader
    exact h.apart (by simp [ha]) _ hname (of_decide_eq_true hrecased)
  simp [headers, ha, hown, hextra]

/-- The authorization is found under its name in any case. -/
theorem header?_headers {a : String} (ha : c.authorization = some a)
    (hname : Recased name authorizationHeader) : header? c.headers name = some a := by
  have hfirst : sameIgnoringCase authorizationHeader name = true := by
    rw [sameIgnoringCase_congr hname]
    simp [sameIgnoringCase]
  simp [header?, headers, ha, hfirst]

end ClientConfig
end TickingTable
