import Mathlib.Data.List.Forall2
import MyS3.Library.Strings

/-!
The SQL operator LIKE. A percent sign matches any sequence, an underscore one
character, and ASCII letters match without regard to case. With an escape
character, the character after it stands for itself; a pattern that ends in its
escape character matches nothing.
-/

namespace Library.Like

open Library.Strings

inductive Token
  | any
  | one
  | literal (c : Char)
  deriving DecidableEq, Repr

/-- Read a pattern; `none` is a dangling escape character. -/
def tokens (escape : Option Char) : Text → Option (List Token)
  | [] => some []
  | [c] =>
    if escape = some c then none
    else if c = '%' then some [.any]
    else if c = '_' then some [.one]
    else some [.literal c]
  | c :: d :: rest =>
    if escape = some c then (tokens escape rest).map (.literal d :: ·)
    else if c = '%' then (tokens escape (d :: rest)).map (.any :: ·)
    else if c = '_' then (tokens escape (d :: rest)).map (.one :: ·)
    else (tokens escape (d :: rest)).map (.literal c :: ·)

/-- ASCII upper-case letters are folded to lower case. -/
def foldCase (c : Char) : Char :=
  if 'A' ≤ c ∧ c ≤ 'Z' then Char.ofNat (c.toNat + 32) else c

/-- Some rest of the text matches. -/
def matchSome (k : Text → Bool) : Text → Bool
  | [] => k []
  | c :: rest => k (c :: rest) || matchSome k rest

def matchTokens : List Token → Text → Bool
  | [], t => t.isEmpty
  | .any :: p, t => matchSome (matchTokens p) t
  | .one :: _, [] => false
  | .one :: p, _ :: t => matchTokens p t
  | .literal _ :: _, [] => false
  | .literal c :: p, d :: t => foldCase c == foldCase d && matchTokens p t

def like (escape : Option Char) (pattern t : Text) : Bool :=
  match tokens escape pattern with
  | none => false
  | some p => matchTokens p t

/-- A text as a pattern that stands for itself. -/
def escape (e : Char) (t : Text) : Text :=
  t.flatMap fun c => if c = e ∨ c = '%' ∨ c = '_' then [e, c] else [c]

/-- Escaping in three replacements: the escape character goes first, so that none of them
meets what an earlier one has written but to keep it. -/
theorem escape_eq_replace {e : Char} (hpercent : e ≠ '%') (hunder : e ≠ '_') (t : Text) :
    replaceChar '_' [e, '_'] (replaceChar '%' [e, '%'] (replaceChar e [e, e] t)) = escape e t := by
  unfold replaceChar escape
  rw [List.flatMap_assoc, List.flatMap_assoc]
  congr 1
  funext c
  by_cases hescape : c = e
  · simp [hescape, hpercent, hunder]
  by_cases hc : c = '%'
  · simp [hc, hpercent.symm, hunder]
  by_cases hd : c = '_'
  · simp [hd, hunder.symm]
  · simp [hescape, hc, hd]

theorem tokens_escape {e : Char} (he : e ≠ '%') (t : Text) :
    tokens (some e) (escape e t ++ ['%']) = some (t.map Token.literal ++ [.any]) := by
  induction t with
  | nil => simp [escape, tokens, he]
  | cons c rest ih =>
    have hcons : escape e (c :: rest) =
        (if c = e ∨ c = '%' ∨ c = '_' then [e, c] else [c]) ++ escape e rest := rfl
    rw [hcons]
    by_cases hspecial : c = e ∨ c = '%' ∨ c = '_'
    · rw [if_pos hspecial]
      simp only [List.cons_append, List.nil_append, tokens, if_true, ih, Option.map_some,
        List.map_cons]
    · rw [if_neg hspecial]
      push Not at hspecial
      obtain ⟨hc, hpercent, hunder⟩ := hspecial
      -- The pattern goes on after the character, so it is not read as the last one.
      obtain ⟨d, tail, hd⟩ : ∃ d tail, escape e rest ++ ['%'] = d :: tail := by
        cases escape e rest with
        | nil => exact ⟨'%', [], rfl⟩
        | cons d tail => exact ⟨d, tail ++ ['%'], rfl⟩
      have hne : ¬ some e = some c := by simpa using Ne.symm hc
      simp only [List.cons_append, List.nil_append]
      rw [hd] at ih ⊢
      simp only [tokens, if_neg hne, if_neg hpercent, if_neg hunder, ih, Option.map_some,
        List.map_cons, List.cons_append]

/-- A percent sign at the end of a pattern matches every rest. -/
theorem matchTokens_any (t : Text) : matchTokens [.any] t = true := by
  unfold matchTokens
  induction t with
  | nil => rfl
  | cons c rest ih => rw [matchSome, ih, Bool.or_true]

theorem matchTokens_literals {p t : Text} :
    matchTokens (p.map Token.literal ++ [.any]) t = true ↔ p.map foldCase <+: t.map foldCase := by
  induction p generalizing t with
  | nil => simp [matchTokens_any]
  | cons c rest ih =>
    cases t with
    | nil => simp [matchTokens]
    | cons d tail =>
      simp only [List.map_cons, List.cons_append, matchTokens, Bool.and_eq_true, beq_iff_eq,
        List.cons_prefix_cons, ih]

/-- A prefix pattern matches the texts that begin with the prefix, up to the case of ASCII
letters. -/
theorem like_escape_prefix {e : Char} (he : e ≠ '%') {p t : Text} :
    like (some e) (escape e p ++ ['%']) t = true ↔ p.map foldCase <+: t.map foldCase := by
  unfold like
  rw [tokens_escape he]
  exact matchTokens_literals

/-- A character of a pattern that has no escape character. -/
def tokenOf (c : Char) : Token := if c = '%' then .any else if c = '_' then .one else .literal c

theorem tokens_none (p : Text) : tokens none p = some (p.map tokenOf) := by
  induction p with
  | nil => rfl
  | cons c rest ih =>
    cases rest with
    | nil =>
      simp only [tokens, List.map_cons, List.map_nil, tokenOf]
      split_ifs <;> simp_all
    | cons d rest =>
      rw [List.map_cons]
      simp only [tokens, ih, tokenOf]
      split_ifs <;> simp_all

theorem matchSome_iff {k : Text → Bool} {t : Text} :
    matchSome k t = true ↔ ∃ v, v <:+ t ∧ k v = true := by
  induction t with
  | nil =>
    simp only [matchSome, List.suffix_nil, exists_eq_left]
  | cons c rest ih =>
    simp only [matchSome, Bool.or_eq_true, ih, List.suffix_cons_iff, or_and_right, exists_or,
      exists_eq_left]

/-- The first tokens match the beginning of a text, and the last ones its rest. -/
theorem matchTokens_append {a b : List Token} {t : Text} :
    matchTokens (a ++ b) t = true ↔
      ∃ u v, t = u ++ v ∧ matchTokens a u = true ∧ matchTokens b v = true := by
  induction a generalizing t with
  | nil => simp [matchTokens]
  | cons token a ih =>
    cases token with
    | any =>
      simp only [List.cons_append, matchTokens, matchSome_iff, ih]
      constructor
      · intro h
        obtain ⟨w, ⟨x, rfl⟩, u, v, rfl, ha, hb⟩ := h
        exact ⟨x ++ u, v, (List.append_assoc _ _ _).symm, ⟨u, List.suffix_append _ _, ha⟩, hb⟩
      · intro h
        obtain ⟨u, v, rfl, ⟨w, ⟨x, rfl⟩, ha⟩, hb⟩ := h
        exact ⟨w ++ v, ⟨x, (List.append_assoc _ _ _).symm⟩, w, v, rfl, ha, hb⟩
    | one =>
      cases t with
      | nil => simp [matchTokens]
      | cons d t =>
        simp only [List.cons_append, matchTokens, ih]
        constructor
        · intro h
          obtain ⟨u, v, rfl, ha, hb⟩ := h
          exact ⟨d :: u, v, rfl, ha, hb⟩
        · intro h
          obtain ⟨u, v, huv, ha, hb⟩ := h
          cases u with
          | nil => simp [matchTokens] at ha
          | cons e u =>
            obtain ⟨rfl, rfl⟩ := List.cons_eq_cons.mp huv
            exact ⟨u, v, rfl, ha, hb⟩
    | literal c =>
      cases t with
      | nil => simp [matchTokens]
      | cons d t =>
        simp only [List.cons_append, matchTokens, Bool.and_eq_true, ih]
        constructor
        · intro h
          obtain ⟨hc, u, v, rfl, ha, hb⟩ := h
          refine ⟨d :: u, v, rfl, ?_, hb⟩
          simp only [matchTokens, Bool.and_eq_true]
          exact ⟨hc, ha⟩
        · intro h
          obtain ⟨u, v, huv, ha, hb⟩ := h
          cases u with
          | nil => simp [matchTokens] at ha
          | cons e u =>
            obtain ⟨rfl, rfl⟩ := List.cons_eq_cons.mp huv
            simp only [matchTokens, Bool.and_eq_true] at ha
            exact ⟨ha.1, u, v, rfl, ha.2, hb⟩

/-- A pattern between percent signs matches the texts that contain it, up to the case of ASCII
letters. -/
theorem like_escape_infix {e : Char} (he : e ≠ '%') {p t : Text} :
    like (some e) ('%' :: (escape e p ++ ['%'])) t = true ↔
      p.map foldCase <:+: t.map foldCase := by
  obtain ⟨d, tail, hd⟩ : ∃ d tail, escape e p ++ ['%'] = d :: tail :=
    List.exists_cons_of_ne_nil (by simp)
  have htokens : tokens (some e) ('%' :: (escape e p ++ ['%'])) =
      some (.any :: (p.map Token.literal ++ [.any])) := by
    have hrest := tokens_escape he p
    rw [hd] at hrest ⊢
    simp [tokens, he, hrest]
  unfold like
  rw [htokens]
  simp only [matchTokens, matchSome_iff, matchTokens_literals]
  constructor
  · intro h
    obtain ⟨v, hv, hp⟩ := h
    exact hp.isInfix.trans (hv.map foldCase).isInfix
  · intro h
    obtain ⟨u, w, huw⟩ := h
    refine ⟨t.drop u.length, List.drop_suffix _ _, ?_⟩
    rw [List.map_drop, ← huw, List.append_assoc, List.drop_left]
    exact List.prefix_append _ _

theorem foldCase_eq_toLower (c : Char) : foldCase c = c.toLower := by
  by_cases hupper : 'A' ≤ c ∧ c ≤ 'Z'
  · have hall : ∀ i : Fin 26, foldCase (Char.ofNat (65 + i)) = (Char.ofNat (65 + i)).toLower := by
      decide
    have hlow : 65 ≤ c.toNat := hupper.1
    have hhigh : c.toNat ≤ 90 := hupper.2
    have hc := hall ⟨c.toNat - 65, by omega⟩
    have hc65 : 65 + (c.toNat - 65) = c.toNat := by omega
    simpa only [hc65, Char.ofNat_toNat] using hc
  · have hval : ¬ (c.val ≥ 'A'.val ∧ c.val ≤ 'Z'.val) := hupper
    unfold foldCase Char.toLower
    rw [if_neg hupper, dif_neg hval]

/-- A character of a pattern that matches this one. -/
def Fits (c d : Char) : Prop := c = '%' ∨ c = '_' ∨ foldCase c = foldCase d

theorem Fits.refl (c : Char) : Fits c c := .inr (.inr rfl)

theorem matchTokens_of_fits {p t : Text} (h : List.Forall₂ Fits p t) :
    matchTokens (p.map tokenOf) t = true := by
  induction h with
  | nil => rfl
  | @cons c d p t hfit _ ih =>
    rw [List.map_cons]
    by_cases hany : c = '%'
    · have htoken : tokenOf c = .any := if_pos hany
      simp only [htoken, matchTokens, matchSome_iff]
      exact ⟨t, List.suffix_cons d t, ih⟩
    by_cases hone : c = '_'
    · have htoken : tokenOf c = .one := by rw [tokenOf, if_neg hany, if_pos hone]
      simpa only [htoken, matchTokens] using ih
    · have htoken : tokenOf c = .literal c := by rw [tokenOf, if_neg hany, if_neg hone]
      have hfold : foldCase c = foldCase d := (hfit.resolve_left hany).resolve_left hone
      simp only [htoken, matchTokens, hfold, beq_self_eq_true, Bool.true_and]
      exact ih

theorem like_none_of_fits {p u v : Text} (h : List.Forall₂ Fits p u) :
    like none (p ++ ['%']) (u ++ v) = true := by
  unfold like
  rw [tokens_none, List.map_append]
  simp only
  rw [matchTokens_append]
  exact ⟨u, v, rfl, matchTokens_of_fits h, matchTokens_any v⟩

/-- A text, read as a pattern, matches everything that begins with it. -/
theorem like_none_of_prefix {p t : Text} (h : p <+: t) : like none (p ++ ['%']) t = true := by
  obtain ⟨v, rfl⟩ := h
  exact like_none_of_fits (List.forall₂_same.mpr fun c _ => Fits.refl c)

/-- A character that, in a pattern, matches itself only. -/
def Plain (c : Char) : Prop := c ≠ '%' ∧ c ≠ '_' ∧ ¬ ('A' ≤ c ∧ c ≤ 'Z') ∧ ¬ ('a' ≤ c ∧ c ≤ 'z')

theorem Plain.eq_of_fits {c d : Char} (h : Plain c) (hfit : Fits c d) : c = d := by
  obtain ⟨hpercent, hunder, hupper, hlower⟩ := h
  have hfold := (hfit.resolve_left hpercent).resolve_left hunder
  unfold foldCase at hfold
  rw [if_neg hupper] at hfold
  split_ifs at hfold with hd
  · -- A folded letter is a lower-case one.
    have hnat : ∀ i : Fin 26, 'a' ≤ Char.ofNat (65 + i + 32) ∧ Char.ofNat (65 + i + 32) ≤ 'z' := by
      decide
    have hlow : 65 ≤ d.toNat := hd.1
    have hhigh : d.toNat ≤ 90 := hd.2
    have hletter := hnat ⟨d.toNat - 65, by omega⟩
    have hd65 : 65 + (d.toNat - 65) = d.toNat := by omega
    simp only [hd65, ← hfold] at hletter
    exact absurd hletter hlower
  · exact hfold

/-- Every other character matches a character that it is not. -/
theorem exists_fits_of_not_plain {c : Char} (h : ¬ Plain c) : ∃ d, d ≠ c ∧ Fits c d := by
  unfold Plain at h
  by_cases hpercent : c = '%'
  · exact ⟨'a', by rw [hpercent]; decide, .inl hpercent⟩
  by_cases hunder : c = '_'
  · exact ⟨'a', by rw [hunder]; decide, .inr (.inl hunder)⟩
  by_cases hupper : 'A' ≤ c ∧ c ≤ 'Z'
  · have hall : ∀ i : Fin 26, Char.ofNat (65 + i + 32) ≠ Char.ofNat (65 + i) ∧
        foldCase (Char.ofNat (65 + i)) = foldCase (Char.ofNat (65 + i + 32)) := by decide
    have hlow : 65 ≤ c.toNat := hupper.1
    have hhigh : c.toNat ≤ 90 := hupper.2
    have hc := hall ⟨c.toNat - 65, by omega⟩
    have hc65 : 65 + (c.toNat - 65) = c.toNat := by omega
    simp only [hc65, Char.ofNat_toNat] at hc
    exact ⟨_, hc.1, .inr (.inr hc.2)⟩
  · have hlower : 'a' ≤ c ∧ c ≤ 'z' := by tauto
    have hall : ∀ i : Fin 26, Char.ofNat (65 + i) ≠ Char.ofNat (97 + i) ∧
        foldCase (Char.ofNat (97 + i)) = foldCase (Char.ofNat (65 + i)) := by decide
    have hlow : 97 ≤ c.toNat := hlower.1
    have hhigh : c.toNat ≤ 122 := hlower.2
    have hc := hall ⟨c.toNat - 97, by omega⟩
    have hc97 : 97 + (c.toNat - 97) = c.toNat := by omega
    simp only [hc97, Char.ofNat_toNat] at hc
    exact ⟨_, hc.1, .inr (.inr hc.2)⟩

theorem plain_prefix {p t : Text} (hp : ∀ c ∈ p, Plain c)
    (h : p.map foldCase <+: t.map foldCase) : p <+: t := by
  induction p generalizing t with
  | nil => exact List.nil_prefix
  | cons c p ih =>
    cases t with
    | nil => simp at h
    | cons d t =>
      rw [List.map_cons, List.map_cons, List.cons_prefix_cons] at h
      have hcd : c = d := (hp c List.mem_cons_self).eq_of_fits (.inr (.inr h.1))
      rw [hcd, List.prefix_cons_inj]
      exact ih (fun x hx => hp x (List.mem_cons_of_mem c hx)) h.2

theorem map_tokenOf_plain {p : Text} (hp : ∀ c ∈ p, Plain c) :
    p.map tokenOf = p.map Token.literal := by
  apply List.map_congr_left
  intro c hc
  rw [tokenOf, if_neg (hp c hc).1, if_neg (hp c hc).2.1]

/-- A text, read as a pattern, tests exactly for a prefix when its characters are plain. -/
theorem like_none_prefix_iff {p : Text} :
    (∀ t, like none (p ++ ['%']) t = true ↔ p <+: t) ↔ ∀ c ∈ p, Plain c := by
  constructor
  · intro h c hc
    by_contra hplain
    obtain ⟨d, hd, hfit⟩ := exists_fits_of_not_plain hplain
    obtain ⟨u, v, rfl⟩ := List.append_of_mem hc
    have hfits : List.Forall₂ Fits (u ++ c :: v) (u ++ d :: v) :=
      List.rel_append (List.forall₂_same.mpr fun x _ => Fits.refl x)
        (.cons hfit (List.forall₂_same.mpr fun x _ => Fits.refl x))
    have hmatch := like_none_of_fits (v := []) hfits
    rw [List.append_nil, h] at hmatch
    have heq := hmatch.eq_of_length (by simp)
    rw [List.append_cancel_left_eq, List.cons_eq_cons] at heq
    exact hd heq.1.symm
  · intro hp t
    refine ⟨fun h => ?_, like_none_of_prefix⟩
    unfold like at h
    rw [tokens_none, List.map_append, map_tokenOf_plain hp] at h
    exact plain_prefix hp (matchTokens_literals.mp h)

example : like (some '\\') "a\\%b%".toList "A%bc".toList = true := by decide

end Library.Like
