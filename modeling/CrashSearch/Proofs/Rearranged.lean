import CrashSearch.Json.Decode
import Mathlib.Data.List.Forall2
import Mathlib.Data.List.Nodup
import Mathlib.Data.List.Perm.Basic
import Mathlib.Data.List.TakeWhile
import Mathlib.Data.Set.List

/-!
# Documents in another order

The members of an object have no order of their own, so whoever passes a document on may list them
differently. A value is read back if it is read from its document in whatever order the members
were put, in the document itself or inside of it.

## Main definitions

* `Json.Rearranged`: the same document with the members of objects in another order.
* `Json.ReadsBack`: a value is read from its document in every order.
* `Json.Fields.Holds`: the members of a record, each rearranged in itself.

## Main statements

* `Json.wholeNumber?_toDigits`: the digits of a number spell it.
* `Json.Rearranged.exists_fields`: the members of a record are found in every order.
* `Json.ReadsBack.list`, `Json.ReadsBack.option`: lists and missing values are read back if their
  parts are.
-/

namespace CrashSearch.Json

/-- The documents are the same, but for the order in which their objects list the members. -/
inductive Rearranged : Json → Json → Prop
  | refl (j : Json) : Rearranged j j
  | array {as bs : List Json} : List.Forall₂ Rearranged as bs → Rearranged (.array as) (.array bs)
  | object {ms ns ks : List (Spelling × Json)} : ms.Perm ns → ns.map (·.1) = ks.map (·.1) →
      List.Forall₂ Rearranged (ns.map (·.2)) (ks.map (·.2)) → Rearranged (.object ms) (.object ks)

/-- The value of a document is read from it, also with its members in another order. -/
def ReadsBack {α : Type} (write : α → Json) (read : Json → Read α) : Prop :=
  ∀ a j, Rearranged (write a) j → read j = .ok a

variable {α : Type} {write : α → Json} {read : Json → Read α} {a b j : Json}

theorem ok_bind {β : Type} {x : α} {next : α → Read β} : Except.ok x >>= next = next x := rfl

/-! ## Leaves and lists -/

namespace Rearranged

theorem eq_text {s : String} (h : Rearranged (text s) j) : j = text s := by
  cases h
  rfl

theorem eq_nat {n : Nat} (h : Rearranged (nat n) j) : j = nat n := by
  cases h
  rfl

theorem eq_int {n : Int} (h : Rearranged (int n) j) : j = int n := by
  cases n <;> cases h <;> rfl

theorem exists_array {as : List Json} (h : Rearranged (.array as) j) :
    ∃ bs, j = .array bs ∧ List.Forall₂ Rearranged as bs := by
  cases h with
  | refl => exact ⟨as, rfl, List.forall₂_same.2 fun a _ => .refl a⟩
  | array h => exact ⟨_, rfl, h⟩

theorem exists_mem_of_forall₂ {as bs : List Json} (h : List.Forall₂ Rearranged as bs)
    (hb : b ∈ bs) : ∃ a ∈ as, Rearranged a b := by
  obtain ⟨i, hi, rfl⟩ := List.mem_iff_getElem.1 hb
  obtain ⟨hlength, hget⟩ := List.forall₂_iff_get.1 h
  have hi' : i < as.length := hlength ▸ hi
  exact ⟨as[i], List.getElem_mem hi', hget i hi' hi⟩

theorem exists_of_forall₂ {ns ks : List (Spelling × Json)} (hnames : ns.map (·.1) = ks.map (·.1))
    (hvalues : List.Forall₂ Rearranged (ns.map (·.2)) (ks.map (·.2))) :
    ∀ k ∈ ks, ∃ a, (k.1, a) ∈ ns ∧ Rearranged a k.2 := by
  induction ks generalizing ns with
  | nil => simp
  | cons k ks ih =>
    cases ns with
    | nil => simp at hnames
    | cons n ns =>
      obtain ⟨name, a⟩ := n
      obtain ⟨rfl, hrest⟩ := List.cons_eq_cons.1 hnames
      obtain ⟨hvalue, hvalues⟩ := List.forall₂_cons.1 hvalues
      intro m hm
      rcases List.mem_cons.1 hm with rfl | hm
      · exact ⟨a, List.mem_cons_self, hvalue⟩
      · obtain ⟨a, ha, hrearranged⟩ := ih hrest hvalues m hm
        exact ⟨a, List.mem_cons_of_mem _ ha, hrearranged⟩

theorem exists_object {ms : List (Spelling × Json)} (h : Rearranged (.object ms) j) :
    ∃ ks, j = .object ks ∧ (ms.map (·.1)).Perm (ks.map (·.1)) ∧
      ∀ k ∈ ks, ∃ a, (k.1, a) ∈ ms ∧ Rearranged a k.2 := by
  cases h with
  | refl => exact ⟨ms, rfl, .refl _, fun k hk => ⟨k.2, hk, .refl _⟩⟩
  | object hperm hnames hvalues =>
    refine ⟨_, rfl, hnames ▸ hperm.map _, fun k hk => ?_⟩
    obtain ⟨a, ha, hrearranged⟩ := exists_of_forall₂ hnames hvalues k hk
    exact ⟨a, hperm.mem_iff.2 ha, hrearranged⟩

end Rearranged

theorem readAll_of_forall₂ (hread : ReadsBack write read) {l : List α} {bs : List Json}
    (h : List.Forall₂ Rearranged (l.map write) bs) : readAll read bs = .ok l := by
  induction l generalizing bs with
  | nil =>
    cases h
    rfl
  | cons a l ih =>
    cases h with
    | cons ha hrest =>
      rw [readAll, hread a _ ha, ih hrest]
      rfl

namespace ReadsBack

theorem text : ReadsBack Json.text asText := by
  intro s j h
  rw [h.eq_text]
  simp [Json.text, asText, Quoted.decode_encode]

theorem bool : ReadsBack Json.bool asBool := by
  intro b j h
  cases h
  rfl

theorem list (hread : ReadsBack write read) :
    ReadsBack (fun l => .array (l.map write)) (asList read) := by
  intro l j h
  obtain ⟨bs, rfl, hbs⟩ := h.exists_array
  exact readAll_of_forall₂ hread hbs

theorem pair (hread : ReadsBack write read) :
    ReadsBack (fun p : α × α => .array [write p.1, write p.2]) (asPair read) := by
  rintro ⟨x, y⟩ j h
  obtain ⟨bs, rfl, hbs⟩ := h.exists_array
  cases hbs with
  | cons hx hrest =>
    cases hrest with
    | cons hy hnil =>
      cases hnil
      rw [asPair, hread x _ hx, hread y _ hy]
      rfl

/-- A value that is never read from nothing can be left out. -/
theorem option (hread : ReadsBack write read) (hnull : ∀ a, read .null ≠ .ok a)
    {writeOption : Option α → Json} (hnone : writeOption none = .null)
    (hsome : ∀ a, writeOption (some a) = write a) : ReadsBack writeOption (asOption read) := by
  intro o j h
  cases o with
  | none =>
    rw [hnone] at h
    cases h
    rfl
  | some a =>
    have hj : read j = .ok a := hread a j (hsome a ▸ h)
    unfold asOption
    split
    · exact absurd hj (hnull a)
    · rw [hj]
      rfl

end ReadsBack

/-! ## Numbers -/

/-- No needless zero stands in front. -/
theorem eq_zero_of_head?_toDigits {n : Nat} (h : (Nat.toDigits 10 n).head? = some '0') : n = 0 := by
  induction n using Nat.strongRecOn with
  | _ n ih =>
    by_cases hn : n < 10
    · rw [Nat.toDigits_of_lt_base hn] at h
      have hdigits : ∀ n < 10, n.digitChar = '0' → n = 0 := by decide
      exact hdigits n hn (by simpa using h)
    · rw [Nat.toDigits_of_base_le (by decide) (Nat.not_lt.1 hn),
        List.head?_append_of_ne_nil _ Nat.toDigits_ne_nil] at h
      have hdiv := ih (n / 10) (by omega) h
      omega

theorem unsigned?_toDigits (negative : Bool) (n : Nat) :
    NumberLiteral.unsigned? negative (Nat.toDigits 10 n) =
      some ⟨negative, Nat.toDigits 10 n, none, none⟩ := by
  have hdigits : ∀ c ∈ Nat.toDigits 10 n, c.isDigit = true :=
    fun _ => Nat.isDigit_of_mem_toDigits (by decide) (by decide)
  have htake : (Nat.toDigits 10 n).takeWhile Char.isDigit = Nat.toDigits 10 n :=
    List.takeWhile_eq_self_iff.2 hdigits
  have hdrop : (Nat.toDigits 10 n).dropWhile Char.isDigit = [] :=
    List.dropWhile_eq_nil_iff.2 hdigits
  have hform : ¬(Nat.toDigits 10 n = [] ∨
      (Nat.toDigits 10 n).head? = some '0' ∧ (Nat.toDigits 10 n).length ≠ 1) := by
    rintro (hnil | ⟨hzero, hlength⟩)
    · exact Nat.toDigits_ne_nil hnil
    · rw [eq_zero_of_head?_toDigits hzero] at hlength
      exact hlength rfl
  unfold NumberLiteral.unsigned?
  rw [htake, hdrop, if_neg hform]
  rfl

/-- The digits of a number spell it. -/
theorem wholeNumber?_toDigits (n : Nat) : wholeNumber? (Nat.toDigits 10 n) = some (n : Int) := by
  have hsign : NumberLiteral.ofSpelling? (Nat.toDigits 10 n) =
      NumberLiteral.unsigned? false (Nat.toDigits 10 n) := by
    unfold NumberLiteral.ofSpelling?
    split
    · rename_i rest heq
      have hminus : '-' ∈ Nat.toDigits 10 n := heq ▸ List.mem_cons_self
      exact absurd (Nat.isDigit_of_mem_toDigits (by decide) (by decide) hminus) (by decide)
    · rfl
  rw [wholeNumber?, hsign, unsigned?_toDigits]
  simp [NumberLiteral.int?, Nat.ofDigitChars_ten_toDigits]

theorem wholeNumber?_neg_toDigits (n : Nat) :
    wholeNumber? ('-' :: Nat.toDigits 10 (n + 1)) = some (Int.negSucc n) := by
  change NumberLiteral.unsigned? true (Nat.toDigits 10 (n + 1)) >>= NumberLiteral.int? = _
  rw [unsigned?_toDigits]
  simp [NumberLiteral.int?, Nat.ofDigitChars_ten_toDigits, Int.negSucc_eq]

theorem asInt_number {inRange : Int → Bool} {spelling : Spelling} {n : Int}
    (hspelling : wholeNumber? spelling = some n) (hn : inRange n = true) :
    asInt inRange (.number spelling) = .ok n := by
  simp [asInt, hspelling, hn]

theorem asInt_int {inRange : Int → Bool} {n : Int} (hn : inRange n = true) :
    asInt inRange (int n) = .ok n := by
  cases n with
  | ofNat n => exact asInt_number (wholeNumber?_toDigits n) hn
  | negSucc n => exact asInt_number (wholeNumber?_neg_toDigits n) hn

theorem asNat_nat {bound n : Nat} (hn : n < bound) : asNat bound (nat n) = .ok n := by
  have hint : asInt (fun n => 0 ≤ n ∧ n < bound) (int n) = .ok n := asInt_int (by simpa using hn)
  change Int.toNat <$> asInt _ (int n) = _
  rw [hint]
  rfl

namespace ReadsBack

theorem word32 : ReadsBack (fun n : UInt32 => nat n.toNat) asWord32 := by
  intro n j h
  rw [h.eq_nat, asWord32, asNat_nat n.toNat_lt]
  simp

theorem word64 : ReadsBack (fun n : UInt64 => nat n.toNat) asWord64 := by
  intro n j h
  rw [h.eq_nat, asWord64, asNat_nat n.toNat_lt]
  simp

theorem int32 : ReadsBack (fun n : Int32 => int n.toInt) asInt32 := by
  intro n j h
  have hrange := And.intro n.minValue_le_toInt n.toInt_le
  rw [h.eq_int, asInt32, asInt_int (by simpa using hrange)]
  simp

end ReadsBack

/-! ## Records -/

theorem encode_injective : Function.Injective Quoted.encode := by
  intro s t h
  have hdecode := congrArg Quoted.decode h
  simpa [Quoted.decode_encode] using hdecode

/-- A member of an object with its name spelled. -/
def spell (m : String × Json) : Spelling × Json := (Quoted.encode m.1, m.2)

theorem spell_injective : Function.Injective spell := by
  intro m n h
  obtain ⟨hname, hvalue⟩ := Prod.ext_iff.1 h
  exact Prod.ext (encode_injective hname) hvalue

@[simp] theorem decode_spell {m : String × Json} : Quoted.decode (spell m).1 = some m.1 :=
  Quoted.decode_encode m.1

theorem record_eq {ms : List (String × Json)} : record ms = .object (ms.map spell) := rfl

/-- The members of a record in another order, each rearranged in itself. -/
structure Relisted (ms ns : List (String × Json)) : Prop where
  names : (ms.map (·.1)).Perm (ns.map (·.1))
  values : ∀ n ∈ ns, ∃ a, (n.1, a) ∈ ms ∧ Rearranged a n.2

theorem Rearranged.exists_record {ms : List (String × Json)} (h : Rearranged (record ms) j) :
    ∃ ns, j = record ns ∧ Relisted ms ns := by
  obtain ⟨ks, rfl, hnames, hvalues⟩ := exists_object (record_eq ▸ h)
  have hspelled : ∀ k ∈ ks, k ∈ Set.range spell := by
    intro k hk
    obtain ⟨a, ha, -⟩ := hvalues k hk
    obtain ⟨m, -, hm⟩ := List.mem_map.1 ha
    have hname : Quoted.encode m.1 = k.1 := congrArg Prod.fst hm
    exact ⟨(m.1, k.2), Prod.ext hname rfl⟩
  obtain ⟨ns, rfl⟩ : ks ∈ Set.range (List.map spell) := by
    rw [Set.range_list_map]
    exact hspelled
  refine ⟨ns, rfl, ?_, fun n hn => ?_⟩
  · rw [List.map_map, List.map_map] at hnames
    rw [← List.map_perm_map_iff encode_injective, List.map_map, List.map_map]
    exact hnames
  · obtain ⟨a, ha, hrearranged⟩ := hvalues (spell n) (List.mem_map_of_mem hn)
    exact ⟨a, (List.mem_map_of_injective spell_injective).1 ha, hrearranged⟩

/-- The members that are found are those of a record, each rearranged in itself. -/
def Fields.Holds (fs : Fields) (ms : List (String × Json)) : Prop :=
  ∀ m ∈ ms, ∃ b, fs.lookup m.1 = some b ∧ Rearranged m.2 b

theorem readMembers_record {names seen : List String} {ns : List (String × Json)}
    (hnodup : (ns.map (·.1)).Nodup) (hseen : ∀ n ∈ ns, n.1 ∉ seen)
    (hwhole : ∀ n ∈ ns, n.1 ∉ names → n.2.whole = true) :
    readMembers names (fun _ value => .ok value) seen
      (ns.map spell) = .ok (ns.filter (·.1 ∈ names)) := by
  induction ns generalizing seen with
  | nil => rfl
  | cons n ns ih =>
    obtain ⟨hnew, hnodup⟩ := List.nodup_cons.1 hnodup
    have hrest : ∀ k ∈ ns, k.1 ∉ names → k.2.whole = true :=
      fun k hk => hwhole k (List.mem_cons_of_mem _ hk)
    rw [List.map_cons, spell, readMembers]
    simp only [Quoted.decode_encode]
    split
    · rename_i hname
      have hlater : ∀ k ∈ ns, k.1 ∉ n.1 :: seen := by
        intro k hk hmem
        rcases List.mem_cons.1 hmem with heq | hmem
        · exact hnew (List.mem_map.2 ⟨k, hk, heq⟩)
        · exact hseen k (List.mem_cons_of_mem _ hk) hmem
      rw [if_neg (hseen n List.mem_cons_self), ih hnodup hlater hrest,
        List.filter_cons_of_pos (by simpa using hname)]
      rfl
    · rename_i hname
      rw [if_pos (hwhole n List.mem_cons_self hname),
        ih hnodup (fun k hk => hseen k (List.mem_cons_of_mem _ hk)) hrest,
        List.filter_cons_of_neg (by simpa using hname)]

theorem lookup_of_mem {fs : Fields} (hnodup : (fs.map (·.1)).Nodup) {n : String × Json}
    (hn : n ∈ fs) : fs.lookup n.1 = some n.2 := by
  induction fs with
  | nil => cases hn
  | cons f fs ih =>
    obtain ⟨hnew, hnodup⟩ := List.nodup_cons.1 hnodup
    rcases List.mem_cons.1 hn with rfl | hn
    · rw [List.lookup_cons, beq_self_eq_true]
    · have hne : n.1 ≠ f.1 := fun heq => hnew (List.mem_map.2 ⟨n, hn, heq⟩)
      rw [List.lookup_cons, beq_eq_false_iff_ne.2 hne]
      exact ih hnodup hn

theorem filter_name {ns : List (String × Json)} {name : String} (hnodup : (ns.map (·.1)).Nodup)
    (hn : (name, b) ∈ ns) : ns.filter (·.1 = name) = [(name, b)] := by
  induction ns with
  | nil => cases hn
  | cons n ns ih =>
    obtain ⟨hnew, hnodup⟩ := List.nodup_cons.1 hnodup
    rcases List.mem_cons.1 hn with rfl | hn
    · have hrest : ns.filter (·.1 = name) = [] := by
        rw [List.filter_eq_nil_iff]
        intro k hk heq
        exact hnew (List.mem_map.2 ⟨k, hk, by simpa using heq⟩)
      rw [List.filter_cons_of_pos (by simp), hrest]
    · have hne : n.1 ≠ name := fun heq => hnew (List.mem_map.2 ⟨_, hn, heq.symm⟩)
      rw [List.filter_cons_of_neg (by simpa using hne), ih hnodup hn]

theorem fields_record {names : List String} {ns : List (String × Json)}
    (hnodup : (ns.map (·.1)).Nodup) (hwhole : ∀ n ∈ ns, n.1 ∉ names → n.2.whole = true) :
    fields names (record ns) = .ok (ns.filter (·.1 ∈ names)) :=
  readMembers_record hnodup (by simp) hwhole

namespace Relisted

variable {ms ns : List (String × Json)}

theorem exists_mem (h : Relisted ms ns) (hnodup : (ms.map (·.1)).Nodup) {m : String × Json}
    (hm : m ∈ ms) : ∃ b, (m.1, b) ∈ ns ∧ Rearranged m.2 b := by
  obtain ⟨n, hn, hname⟩ := List.mem_map.1 (h.names.mem_iff.1 (List.mem_map_of_mem hm))
  obtain ⟨a, ha, hrearranged⟩ := h.values n hn
  obtain rfl : (n.1, a) = m := List.inj_on_of_nodup_map hnodup ha hm hname
  exact ⟨n.2, hn, hrearranged⟩

theorem exists_singleton {name : String} (h : Relisted [(name, a)] ns) :
    ∃ b, ns = [(name, b)] ∧ Rearranged a b := by
  obtain ⟨n, rfl⟩ : ∃ n, ns = [n] :=
    List.length_eq_one_iff.1 (by simpa using h.names.length_eq.symm)
  obtain ⟨b, hb, hrearranged⟩ := h.values n List.mem_cons_self
  obtain ⟨rfl, rfl⟩ := Prod.ext_iff.1 (List.mem_singleton.1 hb)
  exact ⟨n.2, rfl, hrearranged⟩

theorem holds (h : Relisted ms ns) (hnodup : (ms.map (·.1)).Nodup) (names : List String) :
    Fields.Holds (ns.filter (·.1 ∈ names)) (ms.filter (·.1 ∈ names)) := by
  intro m hm
  obtain ⟨hm, hname⟩ := List.mem_filter.1 hm
  obtain ⟨b, hb, hrearranged⟩ := h.exists_mem hnodup hm
  have hfound : (m.1, b) ∈ ns.filter (·.1 ∈ names) := List.mem_filter.2 ⟨hb, hname⟩
  have hnodup' : ((ns.filter (·.1 ∈ names)).map (·.1)).Nodup :=
    (List.filter_sublist.map _).nodup (h.names.nodup_iff.1 hnodup)
  exact ⟨b, lookup_of_mem hnodup' hfound, hrearranged⟩

end Relisted

/-- The members of a record are found in every order. -/
theorem Rearranged.exists_fields {ms : List (String × Json)} (h : Rearranged (record ms) j)
    (names : List String) (hnames : ms.map (·.1) = names) (hnodup : names.Nodup) :
    ∃ fs, fields names j = .ok fs ∧ fs.Holds ms := by
  subst hnames
  obtain ⟨ns, rfl, hns⟩ := h.exists_record
  have hknown : ∀ n ∈ ns, n.1 ∈ ms.map (·.1) :=
    fun n hn => hns.names.mem_iff.2 (List.mem_map_of_mem hn)
  have hall : ms.filter (·.1 ∈ ms.map (·.1)) = ms :=
    List.filter_eq_self.2 fun m hm => by simpa using ⟨m.2, hm⟩
  have hholds := hns.holds hnodup (ms.map (·.1))
  rw [hall] at hholds
  refine ⟨_, fields_record (hns.names.nodup_iff.1 hnodup) ?_, hholds⟩
  exact fun n hn hno => absurd (hknown n hn) hno

namespace Fields.Holds

variable {fs : Fields} {ms : List (String × Json)} {name : String} {x : α}

theorem required (h : fs.Holds ms) (hread : ReadsBack write read) (hm : (name, write x) ∈ ms) :
    fs.required name read = .ok x := by
  obtain ⟨b, hlookup, hb⟩ := h _ hm
  rw [Fields.required, hlookup]
  exact hread x b hb

theorem optional (h : fs.Holds ms) (hread : ReadsBack write read) (hm : (name, write x) ∈ ms)
    (absent : α) : fs.optional name read absent = .ok x := by
  obtain ⟨b, hlookup, hb⟩ := h _ hm
  rw [Fields.optional, hlookup]
  exact hread x b hb

end Fields.Holds

/-! ## Readable documents -/

theorem readableItems_iff {items : List Json} :
    readableItems items = true ↔ ∀ j ∈ items, j.readable = true := by
  induction items with
  | nil => simp [readableItems]
  | cons j rest ih => simp [readableItems, ih]

theorem readableMembers_iff {ms : List (Spelling × Json)} : readableMembers ms = true ↔
    ∀ m ∈ ms, (Quoted.decode m.1).isSome = true ∧ m.2.readable = true := by
  induction ms with
  | nil => simp [readableMembers]
  | cons m rest ih => simp [readableMembers, ih, and_assoc]

theorem wholeItems_iff {items : List Json} :
    wholeItems items = true ↔ ∀ j ∈ items, j.whole = true := by
  induction items with
  | nil => simp [wholeItems]
  | cons j rest ih => simp [wholeItems, ih]

theorem wholeMembers_iff {ms : List (Spelling × Json)} :
    wholeMembers ms = true ↔ ∀ m ∈ ms, m.2.whole = true := by
  induction ms with
  | nil => simp [wholeMembers]
  | cons m rest ih => simp [wholeMembers, ih]

theorem sizeOf_lt_of_mem_members {ms : List (Spelling × Json)} {name : Spelling}
    (h : (name, a) ∈ ms) : sizeOf a < sizeOf ms := by
  have hlt := List.sizeOf_lt_of_mem h
  rw [Prod.mk.sizeOf_spec] at hlt
  omega

/-- Nothing that could be read is broken off. -/
theorem whole_of_readable : ∀ j : Json, j.readable = true → j.whole = true
  | .array items, h => by
    rw [readable, readableItems_iff] at h
    rw [whole, wholeItems_iff]
    intro j hj
    have := List.sizeOf_lt_of_mem hj
    exact whole_of_readable j (h j hj)
  | .object members, h => by
    rw [readable, readableMembers_iff] at h
    rw [whole, wholeMembers_iff]
    rintro ⟨name, j⟩ hm
    have := sizeOf_lt_of_mem_members hm
    exact whole_of_readable j (h _ hm).2
  | .broken, h => by simp [readable] at h
  | .null, _ | .bool _, _ | .number _, _ | .string _, _ | .buried, _ => rfl

/-- In another order a document is as readable as before. -/
theorem Rearranged.readable : ∀ {a b : Json}, Rearranged a b → a.readable = true → b.readable = true
  | _, _, .refl _, ha => ha
  | .array as, _, .array h, ha => by
    rw [Json.readable, readableItems_iff] at ha ⊢
    intro y hy
    obtain ⟨x, hx, hxy⟩ := exists_mem_of_forall₂ h hy
    have := List.sizeOf_lt_of_mem hx
    exact hxy.readable (ha x hx)
  | .object ms, _, .object hperm hnames hvalues, ha => by
    rw [Json.readable, readableMembers_iff] at ha ⊢
    intro k hk
    obtain ⟨x, hx, hxk⟩ := exists_of_forall₂ hnames hvalues k hk
    have hms := hperm.mem_iff.2 hx
    have := sizeOf_lt_of_mem_members hms
    obtain ⟨hname, hvalue⟩ := ha _ hms
    exact ⟨hname, hxk.readable hvalue⟩

end CrashSearch.Json
