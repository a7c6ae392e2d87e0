import PbesLab.Grammar.Meaning
import PbesLab.Proofs.Grammar.Matching
import PbesLab.Proofs.Lists

namespace PbesLab.Grammar

variable {ρ μ : Type}

namespace Tree

/-- A node of a tree: its rule and all that is under it. -/
structure Node (ρ : Type) where
  rule : ρ
  parts : List (Tree ρ)

def nodes : List (Tree ρ) → List (Node ρ)
  | [] => []
  | leaf _ :: ts => nodes ts
  | node r parts :: ts => ⟨r, parts⟩ :: nodes ts

def Node.inner (n : Node ρ) : List (Node ρ) :=
  nodes n.parts

@[simp] theorem nodes_append (xs ys : List (Tree ρ)) : nodes (xs ++ ys) = nodes xs ++ nodes ys := by
  fun_induction nodes xs with
  | case1 => rfl
  | case2 c xs ih => exact ih
  | case3 r parts xs ih => exact congrArg (_ :: ·) ih

@[simp] theorem nodes_leaves (cs : List Char) : nodes (leaves cs : List (Tree ρ)) = [] := by
  induction cs with
  | nil => rfl
  | cons c cs ih => exact ih

theorem sizeOf_lt_of_mem_nodes [SizeOf ρ] {ts : List (Tree ρ)} {n : Node ρ} (h : n ∈ nodes ts) :
    sizeOf n.parts < sizeOf ts := by
  fun_induction nodes ts with
  | case1 => cases h
  | case2 c ts ih =>
    have hlt := ih h
    simp only [List.cons.sizeOf_spec]
    omega
  | case3 r parts ts ih =>
    simp only [List.cons.sizeOf_spec, node.sizeOf_spec]
    obtain rfl | h := List.mem_cons.mp h
    · dsimp only
      omega
    · have hlt := ih h
      omega

/-- The nodes of which a node is made, at any depth, itself among them. -/
inductive Node.Within (m : Node ρ) : Node ρ → Prop
  | self : Within m m
  | inner {k n} (hk : k ∈ n.inner) (h : Within m k) : Within m n

def HasNode (t : Tree ρ) (m : Node ρ) : Prop :=
  ∃ n ∈ nodes [t], m.Within n

def Node.meaning (ofNode? : ρ → List (Tree ρ) → List μ → Option μ) (n : Node ρ) : Except ρ μ := do
  let inner ← meaningsOf ofNode? n.parts
  (ofNode? n.rule n.parts inner).elim (.error n.rule) .ok

theorem meaningsOf_eq_mapM (ofNode? : ρ → List (Tree ρ) → List μ → Option μ)
    (ts : List (Tree ρ)) : meaningsOf ofNode? ts = (nodes ts).mapM (Node.meaning ofNode?) := by
  fun_induction nodes ts with
  | case1 => rfl
  | case2 c ts ih =>
    rw [← ih, meaningsOf, meanings]
    cases meaningsOf ofNode? ts <;> rfl
  | case3 r parts ts ih =>
    rw [List.mapM_cons, ← ih, meaningsOf, meanings, Node.meaning]
    cases meaningsOf ofNode? parts with
    | error e => rfl
    | ok inner =>
      cases h : ofNode? r parts inner <;> simp [bind, Except.bind, h, pure, Except.pure]

theorem Node.meaning_eq (ofNode? : ρ → List (Tree ρ) → List μ → Option μ) (n : Node ρ) :
    n.meaning ofNode? = n.inner.mapM (Node.meaning ofNode?) >>= fun inner =>
      (ofNode? n.rule n.parts inner).elim (.error n.rule) .ok := by
  rw [meaning, meaningsOf_eq_mapM]
  rfl

/-- A node means what its rule makes of the nodes inside. -/
theorem Node.meaning_eq_ok {ofNode? : ρ → List (Tree ρ) → List μ → Option μ} {n : Node ρ} {r : ρ}
    {ks : List (Node ρ)} {ms : List μ} {m : μ} (hr : n.rule = r) (hinner : n.inner = ks)
    (hks : List.Forall₂ (fun k m => k.meaning ofNode? = .ok m) ks ms)
    (hm : ofNode? r n.parts ms = some m) : n.meaning ofNode? = .ok m := by
  have hmeanings : ks.mapM (Node.meaning ofNode?) = .ok ms := mapM_of_forall₂ hks
  rw [Node.meaning_eq, hinner, hmeanings, hr]
  exact congrArg (Option.elim · (Except.error r) Except.ok) hm

end Tree

open Grammar.Tree (Node nodes)

/-- The nodes that a pattern may leave, given those of each rule. Terminals and lookaheads leave
none. -/
def Gives (R : ρ → List (Node ρ) → Prop) : Pattern ρ → List (Node ρ) → Prop
  | .rule r, ns => R r ns
  | .seq p q, ns => ∃ us vs, ns = us ++ vs ∧ Gives R p us ∧ Gives R q vs
  | .choice p q, ns => Gives R p ns ∨ Gives R q ns
  | .opt p, ns => ns = [] ∨ Gives R p ns
  | .many p, ns => ∃ nss : List (List (Node ρ)), ns = nss.flatten ∧ ∀ us ∈ nss, Gives R p us
  | _, ns => ns = []

def Only (G : Node ρ → Prop) (r : ρ) (ns : List (Node ρ)) : Prop :=
  ∃ n, ns = [n] ∧ n.rule = r ∧ G n

variable {g : Rules ρ} {R : ρ → List (Node ρ) → Prop} {G : Node ρ → Prop} {p : Pattern ρ}
  {ns : List (Node ρ)} {depth : Nat} {atomic : Bool} {cs rest : List Char} {parts : List (Tree ρ)}

theorem Gives.forall (hR : ∀ r ns, R r ns → ∀ n ∈ ns, G n) (h : Gives R p ns) :
    ∀ n ∈ ns, G n := by
  induction p generalizing ns with
  | empty | finish | literal | oneOf | lineEnd | ahead | notAhead =>
    obtain rfl : ns = [] := h
    nofun
  | rule r => exact hR r ns h
  | seq p q ihp ihq =>
    obtain ⟨us, vs, rfl, hp, hq⟩ := h
    exact List.forall_mem_append.mpr ⟨ihp hp, ihq hq⟩
  | choice p q ihp ihq => exact h.elim ihp ihq
  | opt p ih =>
    obtain rfl | h := h
    · nofun
    · exact ih h
  | many p ih =>
    obtain ⟨nss, rfl, hall⟩ := h
    intro n hn
    obtain ⟨us, hus, hn⟩ := List.mem_flatten.mp hn
    exact ih (hall us hus) n hn

theorem Gives.forall_only (h : Gives (Only G) p ns) : ∀ n ∈ ns, G n := by
  refine h.forall fun r us hus => ?_
  obtain ⟨n, rfl, -, hn⟩ := hus
  exact List.forall_mem_singleton.mpr hn

/-- Every match of the pattern leaves one node, and of it this holds. -/
def GivesOne (R : ρ → List (Node ρ) → Prop) (p : Pattern ρ) (Q : Node ρ → Prop) : Prop :=
  ∀ ns, Gives R p ns → ∃ n, ns = [n] ∧ Q n

namespace GivesOne

variable {q : Pattern ρ} {Q : Node ρ → Prop}

theorem rule {r : ρ} (h : ∀ n, n.rule = r → G n → Q n) :
    GivesOne (Only G) (.rule r) Q := by
  rintro ns ⟨n, rfl, hr, hn⟩
  exact ⟨n, rfl, h n hr hn⟩

theorem choice (hp : GivesOne R p Q) (hq : GivesOne R q Q) : GivesOne R (.choice p q) Q :=
  fun ns h => h.elim (hp ns) (hq ns)

theorem word_seq (t : String) (hp : GivesOne R p Q) : GivesOne R (.seq (.word t) p) Q := by
  rintro ns ⟨us, vs, rfl, rfl, hvs⟩
  exact hp vs hvs

theorem seq_word (hp : GivesOne R p Q) (t : String) : GivesOne R (.seq p (.word t)) Q := by
  rintro ns ⟨us, vs, rfl, hus, rfl⟩
  rw [List.append_nil]
  exact hp us hus

theorem many (hp : GivesOne R p Q) (h : Gives R (.many p) ns) : ∀ n ∈ ns, Q n := by
  obtain ⟨nss, rfl, hall⟩ := h
  intro n hn
  obtain ⟨us, hus, hn⟩ := List.mem_flatten.mp hn
  obtain ⟨m, rfl, hm⟩ := hp us (hall us hus)
  obtain rfl := List.mem_singleton.mp hn
  exact hm

/-- One or more. -/
theorem seq_many (hp : GivesOne R p Q) (hq : GivesOne R q Q) (h : Gives R (.seq p (.many q)) ns) :
    ∃ m ms, ns = m :: ms ∧ ∀ n ∈ m :: ms, Q n := by
  obtain ⟨us, vs, rfl, hus, hvs⟩ := h
  obtain ⟨m, rfl, hm⟩ := hp us hus
  exact ⟨m, vs, rfl, List.forall_mem_cons.mpr ⟨hm, hq.many hvs⟩⟩

theorem commaList (hp : GivesOne R p Q) (h : Gives R (.commaList p) ns) : ∀ n ∈ ns, Q n := by
  obtain ⟨m, ms, rfl, hall⟩ := hp.seq_many (hp.word_seq ",") h
  exact hall

end GivesOne

theorem gives_of_repeatStep
    (hp : ∀ cs rest parts, matchPattern g (matchRule g depth) atomic p cs = .matched parts rest →
      Gives R p (nodes parts))
    {allowance : List Char} (h : repeatStep (gap g atomic)
      (matchPattern g (matchRule g depth) atomic p) allowance cs = .matched parts rest) :
    Gives R (.many p) (nodes parts) := by
  induction allowance generalizing cs parts with
  | nil =>
    obtain ⟨rfl, -⟩ := Result.matched.inj h
    exact ⟨[], rfl, nofun⟩
  | cons a allowance ih =>
    obtain ⟨-, rfl, -⟩ | ⟨xs, mid, ys, hxs, hys, rfl⟩ := repeatStep_cons_eq_matched.mp h
    · exact ⟨[], rfl, nofun⟩
    · obtain ⟨nss, hnss, hall⟩ := ih hys
      refine ⟨nodes xs :: nss, ?_, List.forall_mem_cons.mpr ⟨hp _ _ _ hxs, hall⟩⟩
      simp [hnss]

theorem gives_of_matchPattern
    (hcall : ∀ r cs rest parts, matchRule g depth atomic r cs = .matched parts rest →
      R r (nodes parts))
    (h : matchPattern g (matchRule g depth) atomic p cs = .matched parts rest) :
    Gives R p (nodes parts) := by
  induction p generalizing cs rest parts with
  | empty | finish | literal | oneOf | lineEnd =>
    obtain ⟨t, -, -, rfl⟩ := exists_of_matchPattern_terminal h rfl fun _ => false
    exact Tree.nodes_leaves t
  | rule r => exact hcall r _ _ _ h
  | seq p q ihp ihq =>
    obtain ⟨xs, mid, ys, hxs, hys, rfl⟩ := matchPattern_seq_eq_matched.mp h
    exact ⟨nodes xs, nodes ys, by simp, ihp hxs, ihq hys⟩
  | choice p q ihp ihq =>
    simp only [matchPattern] at h
    split at h
    · exact .inr (ihq h)
    · exact .inl (ihp h)
  | opt p ih =>
    simp only [matchPattern] at h
    split at h
    · obtain ⟨rfl, -⟩ := Result.matched.inj h
      exact .inl rfl
    · exact .inr (ih h)
  | many p ih =>
    obtain ⟨-, rfl, -⟩ | ⟨xs, mid, ys, hxs, hys, rfl⟩ := matchPattern_many_eq_matched.mp h
    · exact ⟨[], rfl, List.forall_mem_nil _⟩
    · obtain ⟨nss, hnss, hall⟩ := gives_of_repeatStep (fun _ _ _ => ih) hys
      refine ⟨nodes xs :: nss, ?_, List.forall_mem_cons.mpr ⟨ih hxs, hall⟩⟩
      simp [hnss]
  | ahead p ih =>
    obtain ⟨xs, mid, -, hk⟩ := Result.andThen_eq_matched.mp h
    obtain ⟨rfl, -⟩ := Result.matched.inj hk
    rfl
  | notAhead p ih =>
    simp only [matchPattern] at h
    split at h
    · cases h
    · obtain ⟨rfl, -⟩ := Result.matched.inj h
      rfl
    · cases h

/-- Inside an atomic rule there are no nodes. -/
theorem nodes_of_atomic
    (h : matchPattern g (matchRule g depth) true p cs = .matched parts rest) :
    nodes parts = [] := by
  have hcall (r : ρ) (cs rest : List Char) (parts : List (Tree ρ))
      (h : matchRule g depth true r cs = .matched parts rest) : nodes parts = [] := by
    cases depth with
    | zero => cases h
    | succ depth =>
      obtain ⟨xs, mid, -, hk⟩ := Result.andThen_eq_matched.mp h
      obtain ⟨rfl, -⟩ := Result.matched.inj hk
      exact Tree.nodes_leaves _
  have hgives := gives_of_matchPattern (R := fun _ ns => ns = []) hcall h
  refine List.eq_nil_iff_forall_not_mem.mpr (hgives.forall fun r ns hns => ?_)
  exact List.eq_nil_iff_forall_not_mem.mp hns

/-- What holds of the nodes of atomic rules, and passes to a node from those inside it, holds of all
nodes of a match. -/
theorem only_of_matchRule
    (hatomic : ∀ n : Node ρ, g.atomic n.rule → n.inner = [] → G n)
    (hopen : ∀ n : Node ρ, g.atomic n.rule = false → Gives (Only G) (g.body n.rule) n.inner → G n)
    {r : ρ} (h : matchRule g depth false r cs = .matched parts rest) : Only G r (nodes parts) := by
  induction depth generalizing r cs rest parts with
  | zero => cases h
  | succ depth ih =>
    obtain ⟨xs, mid, hxs, hk⟩ := Result.andThen_eq_matched.mp h
    obtain ⟨rfl, -⟩ := Result.matched.inj hk
    refine ⟨⟨r, xs⟩, rfl, rfl, ?_⟩
    rw [Bool.false_or] at hxs
    cases hr : g.atomic r with
    | true =>
      rw [hr] at hxs
      exact hatomic _ hr (nodes_of_atomic hxs)
    | false =>
      rw [hr] at hxs
      exact hopen _ hr (gives_of_matchPattern (fun _ _ _ _ => ih) hxs)

theorem only_of_read?
    (hatomic : ∀ n : Node ρ, g.atomic n.rule → n.inner = [] → G n)
    (hopen : ∀ n : Node ρ, g.atomic n.rule = false → Gives (Only G) (g.body n.rule) n.inner → G n)
    {r : ρ} {t : Tree ρ} (h : read? g r cs = some t) : Only G r (nodes [t]) := by
  unfold read? at h
  split at h
  · next u us rest hm =>
    obtain rfl := Option.some.inj h
    obtain ⟨xs, hparts⟩ := exists_node_of_matchRule hm
    obtain ⟨-, rfl⟩ := List.cons.inj hparts
    exact only_of_matchRule hatomic hopen hm
  · cases h

end PbesLab.Grammar
