import InfoProtocol.Proofs.Protocol.Plain
import Mathlib.Data.List.Perm.Basic

/-!
# Canonical order

The order of parameters is total and equal for equal parameters only, and so is that of texts; a
list that is sorted by such an order depends on its elements alone. Actions are sorted by written
forms, which tell them apart if their names are plain. So equivalence is equality up to the order of
declarations. Whatever the names are, bringing a protocol into canonical order changes nothing but
orders, and a second time it changes nothing.
-/

namespace InfoProtocol

section Sorted

variable {α : Type} {le : α → α → Bool}
  (trans : ∀ a b c, le a b = true → le b c = true → le a c = true)
  (total : ∀ a b, (le a b || le b a) = true) {l m : List α}

include trans total

theorem mergeSort_mergeSort : (l.mergeSort le).mergeSort le = l.mergeSort le :=
  List.mergeSort_of_pairwise (List.pairwise_mergeSort trans total l)

theorem mergeSort_eq_iff
    (antisymm : ∀ a ∈ l, ∀ b ∈ l, le a b = true → le b a = true → a = b) :
    l.mergeSort le = m ↔ l.Perm m ∧ m.Pairwise fun a b => le a b = true := by
  constructor
  · rintro rfl
    exact ⟨(List.mergeSort_perm l le).symm, List.pairwise_mergeSort trans total l⟩
  · rintro ⟨hperm, hm⟩
    have hsame := (List.mergeSort_perm l le).trans hperm
    refine hsame.eq_of_pairwise (fun a b ha hb => ?_) (List.pairwise_mergeSort trans total l) hm
    exact antisymm a (List.mem_mergeSort.1 ha) b (hperm.mem_iff.2 hb)

theorem mergeSort_eq_mergeSort
    (antisymm : ∀ a ∈ l, ∀ b ∈ l, le a b = true → le b a = true → a = b) :
    l.mergeSort le = m.mergeSort le ↔ l.Perm m := by
  have hm := List.mergeSort_perm m le
  rw [mergeSort_eq_iff trans total antisymm]
  exact ⟨fun h => h.1.trans hm,
    fun h => ⟨h.trans hm.symm, List.pairwise_mergeSort trans total m⟩⟩

end Sorted

/-- Inputs come before parameters without a scope, and both come before outputs. -/
inductive Scope.Before : Scope → Scope → Prop
  | input_nil : Before .input .nil
  | input_output : Before .input .output
  | nil_output : Before .nil .output

theorem Scope.before_of_rank_lt : ∀ {s t : Scope}, s.rank < t.rank → s.Before t
  | .input, .nil, _ => .input_nil
  | .input, .output, _ => .input_output
  | .nil, .output, _ => .nil_output

theorem Scope.rank_lt_rank {s t : Scope} : s.rank < t.rank ↔ s.Before t := by
  refine ⟨before_of_rank_lt, fun h => ?_⟩
  cases h <;> decide

instance : DecidableRel Scope.Before := fun _ _ => decidable_of_iff _ Scope.rank_lt_rank

namespace Parameter

theorem order_eq : order = compareLex (fun a b => compareOn (·.isKey) b a)
    (compareLex (compareOn (·.scope.rank)) (compareOn (·.name))) :=
  rfl

instance : Std.TransCmp order := by
  rw [order_eq]
  infer_instance

instance : Std.LawfulEqCmp order where
  compare_self := by
    intro a
    simp [order]
  eq_of_compare := by
    intro a b h
    simp only [order, Ordering.then_eq_eq, Std.compare_eq_iff_eq] at h
    obtain ⟨hkey, hrank, hname⟩ := h
    cases a
    cases b
    simp only [mk.injEq]
    exact ⟨hname, Scope.rank_injective hrank, hkey.symm⟩

theorem order_swap (p q : Parameter) : order q p = (order p q).swap :=
  Std.OrientedCmp.eq_swap

theorem order_eq_eq {p q : Parameter} : order p q = .eq ↔ p = q :=
  Std.LawfulEqCmp.compare_eq_iff_eq

theorem order_eq_lt {p q : Parameter} : order p q = .lt ↔
    p.isKey = true ∧ q.isKey = false ∨ p.isKey = q.isKey ∧
      (p.scope.Before q.scope ∨ p.scope = q.scope ∧ p.name < q.name) := by
  -- The marks compare the other way round: a key comes before what is none.
  have hkey : compare q.isKey p.isKey = .lt ↔ p.isKey = true ∧ q.isKey = false := by
    cases p.isKey <;> cases q.isKey <;> decide
  have hscope : p.scope.rank = q.scope.rank ↔ p.scope = q.scope :=
    ⟨Scope.rank_injective, congrArg Scope.rank⟩
  have hname : compare p.name q.name = .lt ↔ p.name < q.name := compareOfLessAndEq_eq_lt
  rw [order, Ordering.then_eq_lt, Ordering.then_eq_lt, hkey, hname, Std.compare_eq_iff_eq,
    Nat.compare_eq_lt, Nat.compare_eq_eq, Scope.rank_lt_rank, hscope, @eq_comm _ q.isKey p.isKey]

theorem le_trans (p q r : Parameter) (hpq : le p q = true) (hqr : le q r = true) :
    le p r = true :=
  Std.TransCmp.isLE_trans hpq hqr

theorem le_total (p q : Parameter) : (le p q || le q p) = true := by
  rw [le, le, order_swap p q]
  cases order p q <;> rfl

theorem le_antisymm {p q : Parameter} (hpq : le p q = true) (hqp : le q p = true) : p = q :=
  Std.LawfulEqCmp.eq_of_compare (Std.OrientedCmp.isLE_antisymm hpq hqp)

theorem order_eq_lt_of_le {p q : Parameter} (h : p.le q = true) (hne : p ≠ q) :
    order p q = .lt :=
  (Ordering.isLE_iff_eq_lt_or_eq_eq.1 h).resolve_right (mt order_eq_eq.1 hne)

end Parameter

namespace Parameters

variable {ps qs : List Parameter}

theorem sort_sort : sort (sort ps) = sort ps :=
  mergeSort_mergeSort Parameter.le_trans Parameter.le_total

theorem sort_eq_iff : sort ps = qs ↔ ps.Perm qs ∧ qs.Pairwise fun p q => p.le q = true :=
  mergeSort_eq_iff Parameter.le_trans Parameter.le_total fun _ _ _ _ =>
    Parameter.le_antisymm

theorem sort_eq_sort : sort ps = sort qs ↔ ps.Perm qs :=
  mergeSort_eq_mergeSort Parameter.le_trans Parameter.le_total fun _ _ _ _ =>
    Parameter.le_antisymm

theorem keys_eq_of_perm (h : ps.Perm qs) : keys ps = keys qs :=
  sort_eq_sort.2 (h.filter _)

/-- Parameters are totally ordered, keys first, then by scope and by name, and only equal ones
compare as equal. So sorted lists and key sequences forget the order of declaration. -/
theorem sort_forgets_declaration_order :
    (∀ p q : Parameter, p.order q = .lt ↔
      p.isKey = true ∧ q.isKey = false ∨ p.isKey = q.isKey ∧
        (p.scope.Before q.scope ∨ p.scope = q.scope ∧ p.name < q.name)) ∧
    (∀ p q : Parameter, q.order p = (p.order q).swap) ∧
    (∀ p q : Parameter, p.order q = .eq ↔ p = q) ∧
    (∀ p q r : Parameter, p.order q = .lt → q.order r = .lt → p.order r = .lt) ∧
    (∀ p q r : Parameter, p.le q = true → q.le r = true → p.le r = true) ∧
    (∀ p q : Parameter, p.le q = true ∨ q.le p = true) ∧
    (∀ ps qs : List Parameter,
      sort ps = qs ↔ ps.Perm qs ∧ qs.Pairwise fun p q => p.le q = true) ∧
    ∀ ps qs : List Parameter, ps.Perm qs → sort ps = sort qs ∧ keys ps = keys qs := by
  refine ⟨fun _ _ => Parameter.order_eq_lt, Parameter.order_swap,
    fun _ _ => Parameter.order_eq_eq, fun _ _ _ => Std.TransCmp.lt_trans, Parameter.le_trans,
    fun p q => ?_, fun _ _ => sort_eq_iff, fun ps qs h => ?_⟩
  · exact Bool.or_eq_true_iff.1 (Parameter.le_total p q)
  · exact ⟨sort_eq_sort.2 h, keys_eq_of_perm h⟩

theorem sort_forgets_declaration_order_sale :
    let id : Parameter := ⟨"id", .output, true⟩
    let lot : Parameter := ⟨"lot", .input, true⟩
    let note : Parameter := ⟨"note", .nil, false⟩
    let price : Parameter := ⟨"prix_fixé", .nil, false⟩
    let ps : List Parameter := [price, id, note, lot, id]
    let qs : List Parameter := [id, lot, id, price, note]
    lot.order id = .lt ∧ id.order note = .lt ∧ lot.order note = .lt ∧ note.order lot = .gt ∧
      lot.le price = true ∧ ps.Perm qs ∧ sort ps = [lot, id, id, note, price] ∧
      sort ps = sort qs ∧ keys ps = keys qs := by
  intro id lot note price ps qs
  obtain ⟨hrule, hswap, -, htrans, hle, -, hsort, hperm⟩ := sort_forgets_declaration_order
  have hlot : lot.order id = .lt := (hrule lot id).2 (by decide)
  have hid : id.order note = .lt := (hrule id note).2 (by decide)
  have hfirst : lot.order note = .lt := htrans lot id note hlot hid
  have hlast : note.order lot = .gt := by rw [hswap lot note, hfirst]; rfl
  have hps : ps.Perm qs := by decide
  exact ⟨hlot, hid, hfirst, hlast, hle lot note price (by decide) (by decide), hps,
    (hsort ps _).2 ⟨by decide, by decide⟩, hperm ps qs hps⟩

end Parameters

section Texts

variable {α : Type} (f : α → String)

theorem textLe_trans (a b c : α) (hab : decide (f a ≤ f b) = true)
    (hbc : decide (f b ≤ f c) = true) : decide (f a ≤ f c) = true :=
  decide_eq_true (String.le_trans (of_decide_eq_true hab) (of_decide_eq_true hbc))

theorem textLe_total (a b : α) : (decide (f a ≤ f b) || decide (f b ≤ f a)) = true := by
  simpa using String.le_total (f a) (f b)

end Texts

namespace Roles

variable {rs ss : List Role}

theorem sort_sort : sort (sort rs) = sort rs :=
  mergeSort_mergeSort (textLe_trans id) (textLe_total id)

theorem sort_eq_sort : sort rs = sort ss ↔ rs.Perm ss :=
  mergeSort_eq_mergeSort (textLe_trans id) (textLe_total id) fun _ _ _ _ hab hba =>
    String.le_antisymm (of_decide_eq_true hab) (of_decide_eq_true hba)

end Roles

namespace Actions

variable {as bs : List Action}

theorem sort_sort : sort (sort as) = sort as :=
  mergeSort_mergeSort (textLe_trans Action.render) (textLe_total Action.render)

theorem sort_eq_sort (has : ∀ a ∈ as, a.Plain) : sort as = sort bs ↔ as.Perm bs :=
  mergeSort_eq_mergeSort (textLe_trans Action.render) (textLe_total Action.render)
    fun a ha b hb hab hba => (has a ha).eq_of_render_eq (has b hb)
      (String.le_antisymm (of_decide_eq_true hab) (of_decide_eq_true hba))

end Actions

structure Action.Rearranged (a b : Action) : Prop where
  name : a.name = b.name
  sender : a.sender = b.sender
  receiver : a.receiver = b.receiver
  params : a.params.Perm b.params

structure Protocol.Rearranged (p q : Protocol) : Prop where
  name : p.name = q.name
  roles : p.roles.Perm q.roles
  params : p.params.Perm q.params
  actions : ∃ as, List.Forall₂ Action.Rearranged p.actions as ∧ as.Perm q.actions

namespace Action

variable {a b : Action}

theorem sortParams_sortParams : a.sortParams.sortParams = a.sortParams := by
  simp only [sortParams, Parameters.sort_sort]

theorem rearranged_iff : a.Rearranged b ↔ a.sortParams = b.sortParams := by
  simp only [sortParams, mk.injEq, Parameters.sort_eq_sort]
  exact ⟨fun h => ⟨h.name, h.sender, h.receiver, h.params⟩, fun h => ⟨h.1, h.2.1, h.2.2.1, h.2.2.2⟩⟩

theorem Plain.sortParams (h : a.Plain) : a.sortParams.Plain :=
  ⟨h.name, h.sender, h.receiver, fun q hq => h.params q (Parameters.mem_sort.1 hq)⟩

end Action

namespace Protocol

variable {p q : Protocol}

theorem rearranged_iff : p.Rearranged q ↔ p.name = q.name ∧ p.roles.Perm q.roles ∧
    p.params.Perm q.params ∧
    (p.actions.map Action.sortParams).Perm (q.actions.map Action.sortParams) := by
  have hactions : (∃ as, List.Forall₂ Action.Rearranged p.actions as ∧ as.Perm q.actions) ↔
      (p.actions.map Action.sortParams).Perm (q.actions.map Action.sortParams) := by
    constructor
    · rintro ⟨as, has, hperm⟩
      have hmap : p.actions.map Action.sortParams = as.map Action.sortParams := by
        rw [← List.forall₂_eq_eq_eq, List.forall₂_map_left_iff, List.forall₂_map_right_iff]
        exact has.imp fun _ _ => Action.rearranged_iff.1
      rw [hmap]
      exact hperm.map _
    · intro h
      have hsame : List.Forall₂ (fun b a => b = a.sortParams) (q.actions.map Action.sortParams)
          q.actions :=
        List.forall₂_map_left_iff.2 (List.forall₂_same.2 fun _ _ => rfl)
      obtain ⟨as, has, hperm⟩ := List.perm_comp_forall₂ h hsame
      exact ⟨as, (List.forall₂_map_left_iff.1 has).imp fun _ _ => Action.rearranged_iff.2, hperm⟩
  constructor
  · intro h
    exact ⟨h.name, h.roles, h.params, hactions.1 h.actions⟩
  · intro h
    obtain ⟨hname, hroles, hparams, has⟩ := h
    exact ⟨hname, hroles, hparams, hactions.2 has⟩

theorem sortParams_canonical (p : Protocol) :
    p.canonical.actions.map Action.sortParams = p.canonical.actions := by
  have hsorted : ∀ a ∈ p.canonical.actions, a.sortParams = id a := by
    intro a ha
    obtain ⟨b, -, rfl⟩ := mem_canonical_actions.1 ha
    exact Action.sortParams_sortParams
  rw [List.map_congr_left hsorted, List.map_id]

theorem canonical_canonical (p : Protocol) : p.canonical.canonical = p.canonical := by
  rw [canonical, sortParams_canonical]
  simp only [canonical, Roles.sort_sort, Parameters.sort_sort, Actions.sort_sort]

theorem rearranged_canonical (p : Protocol) : p.Rearranged p.canonical := by
  rw [rearranged_iff, sortParams_canonical]
  exact ⟨rfl, (Roles.sort_perm _).symm, (Parameters.sort_perm _).symm, (Actions.sort_perm _).symm⟩

theorem equivalent_iff : p.Equivalent q ↔ p.name = q.name ∧ p.roles.Perm q.roles ∧
    p.params.Perm q.params ∧ Actions.sort (p.actions.map Action.sortParams) =
      Actions.sort (q.actions.map Action.sortParams) := by
  rw [Equivalent, canonical, canonical, mk.injEq, Roles.sort_eq_sort, Parameters.sort_eq_sort]

theorem Equivalent.rearranged (h : p.Equivalent q) : p.Rearranged q := by
  obtain ⟨hname, hroles, hparams, hactions⟩ := equivalent_iff.1 h
  refine rearranged_iff.2 ⟨hname, hroles, hparams, ?_⟩
  exact (Actions.sort_perm _).symm.trans (hactions ▸ Actions.sort_perm _)

theorem Rearranged.equivalent (hp : p.Plain) (h : p.Rearranged q) : p.Equivalent q := by
  obtain ⟨hname, hroles, hparams, hactions⟩ := rearranged_iff.1 h
  refine equivalent_iff.2 ⟨hname, hroles, hparams, (Actions.sort_eq_sort fun a ha => ?_).2 hactions⟩
  obtain ⟨b, hb, rfl⟩ := List.mem_map.1 ha
  exact (hp.actions b hb).sortParams

/-- Equivalent are the protocols that declare the same in some order; canonical order is one, and
bringing a protocol into it again changes nothing. -/
theorem equivalent_iff_rearranged :
    (∀ p q : Protocol, p.Plain → q.Plain → (p.Equivalent q ↔ p.Rearranged q)) ∧
    ∀ p : Protocol, p.canonical.canonical = p.canonical ∧ p.Rearranged p.canonical :=
  ⟨fun _ _ hp _ => ⟨Equivalent.rearranged, Rearranged.equivalent hp⟩,
    fun p => ⟨p.canonical_canonical, p.rearranged_canonical⟩⟩

theorem equivalent_of_swapped_offers :
    let id : Parameter := ⟨"id", .output, true⟩
    let price : Parameter := ⟨"prix_fixé", .nil, false⟩
    let p : Protocol :=
      ⟨"Offer", ["S", "B"], [id, price], [⟨"quote", "S", "B", [id, price]⟩, ⟨"ping", "B", "S", []⟩]⟩
    let q : Protocol :=
      ⟨"Offer", ["B", "S"], [price, id], [⟨"ping", "B", "S", []⟩, ⟨"quote", "S", "B", [price, id]⟩]⟩
    p.Plain ∧ q.Plain ∧ p.Rearranged q ∧ p.Equivalent q := by
  intro id price p q
  have hp : p.Plain := by decide +kernel
  have hq : q.Plain := by decide +kernel
  have hquote : Action.Rearranged ⟨"quote", "S", "B", [id, price]⟩
      ⟨"quote", "S", "B", [price, id]⟩ := ⟨rfl, rfl, rfl, .swap price id []⟩
  have hping : Action.Rearranged ⟨"ping", "B", "S", []⟩ ⟨"ping", "B", "S", []⟩ :=
    ⟨rfl, rfl, rfl, .refl _⟩
  have hpq : p.Rearranged q :=
    ⟨rfl, .swap "B" "S" [], .swap price id [],
      ⟨_, .cons hquote (.cons hping .nil), .swap _ _ []⟩⟩
  exact ⟨hp, hq, hpq, (equivalent_iff_rearranged.1 p q hp hq).2 hpq⟩

end Protocol

end InfoProtocol
