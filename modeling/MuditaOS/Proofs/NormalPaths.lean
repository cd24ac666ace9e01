import MuditaOS.Vfs.Path
import MuditaOS.Proofs.NotifierPaths

/-!
# Normalised paths

The iterator's loop of `normalize_path` and the one on a list open at the iterator are
the same, and the second one is the stack machine that enters a path's names. So a
normalised path is a rendered stack, the stack can be read back from it, and to normalise
it once more changes nothing.
-/

namespace MuditaOS.Vfs

open MuditaOS.Utils Components

variable {cwd path name : Path} {names stack : List Path}

/-! ## The loop -/

theorem eraseIdx_reverse_append {before after : List Path} {ep : Path} :
    (before.reverse ++ ep :: after).eraseIdx before.length = before.reverse ++ after := by
  rw [List.eraseIdx_append_of_length_le (by rw [List.length_reverse]), List.length_reverse,
    Nat.sub_self, List.eraseIdx_cons_zero]

theorem getElem_reverse_append {before after : List Path} {ep : Path}
    (h : before.length < (before.reverse ++ ep :: after).length) :
    (before.reverse ++ ep :: after)[before.length] = ep := by
  rw [List.getElem_append_right (by rw [List.length_reverse])]
  simp

/-- A list open at the iterator, the elements in front of it last one first, is the list
with the iterator at its position. -/
theorem normalizeAt_zipper : ∀ {after before : List Path},
    normalizeAt (before.reverse ++ after) before.length = normalizeLoop before after := by
  intro after
  induction after with
  | nil =>
      intro before
      rw [normalizeAt, dif_neg (by simp), normalizeLoop, List.append_nil]
  | cons ep after ih =>
      intro before
      rw [normalizeAt, dif_pos (by simp), getElem_reverse_append, normalizeLoop]
      refine if_congr Iff.rfl ?_ (if_congr Iff.rfl ?_ ?_)
      · rw [eraseIdx_reverse_append]
        exact ih
      · cases before with
        | nil => exact @ih []
        | cons last before =>
            -- the name in front of the iterator goes first, the `..` is what comes next
            have hpit : (last :: before).length - 1 = before.length := rfl
            have herased : ((last :: before).reverse ++ ep :: after).eraseIdx before.length =
                before.reverse ++ ep :: after := by
              rw [List.reverse_cons, List.append_assoc]
              exact eraseIdx_reverse_append
            rw [if_neg (by simp), hpit]
            dsimp only
            rw [herased]
            rw [if_neg (by simp), eraseIdx_reverse_append]
            exact ih
      · have hmove := @ih (ep :: before)
        rwa [List.reverse_cons, List.append_assoc] at hmove

/-- The loop of the source, started at the beginning. -/
theorem normalizeAt_begin {paths : List Path} :
    normalizeAt paths 0 = normalizeLoop [] paths :=
  @normalizeAt_zipper paths []

theorem normalizeLoop_eq_resolve : ∀ {after before : List Path},
    normalizeLoop before after = resolve before.reverse after := by
  intro after
  induction after with
  | nil => intro before; rfl
  | cons ep after ih =>
      intro before
      have hstep : resolve before.reverse (ep :: after) =
          resolve (enter before.reverse ep) after := rfl
      rw [normalizeLoop, hstep, enter, apply_ite (resolve · after), apply_ite (resolve · after)]
      refine if_congr Iff.rfl ih (if_congr Iff.rfl ?_ ?_)
      · rw [ih, List.dropLast_reverse]
      · rw [ih, List.reverse_cons]

/-! ## The names between the slashes -/

theorem splitViewFrom_eq {delim : UInt8} : ∀ {strv token : List UInt8}, delim ∉ token →
    splitViewFrom delim token strv = ((token ++ strv).splitOn delim).filter (· ≠ []) := by
  intro strv
  induction strv with
  | nil =>
      intro token htoken
      rw [splitViewFrom, List.append_nil, List.splitOn_eq_singleton htoken]
      split
      · next hnil => rw [hnil]; rfl
      · next hnil => rw [List.filter_cons, if_pos (decide_eq_true hnil), List.filter_nil]
  | cons c cs ih =>
      intro token htoken
      rw [splitViewFrom]
      split
      · next hc =>
          rw [hc, List.splitOn_append_cons_self_of_not_mem htoken, ih List.not_mem_nil]
          split
          · next hnil => rw [hnil]; rfl
          · next hnil => rw [List.filter_cons, if_pos (decide_eq_true hnil), List.nil_append]
      · next hc =>
          rw [ih, List.append_assoc, List.singleton_append]
          intro hin
          rcases List.mem_append.1 hin with hin | hin
          · exact htoken hin
          · exact hc (List.mem_singleton.1 hin).symm

theorem splitView_eq_components : splitView path pathSeparator = components path :=
  splitViewFrom_eq List.not_mem_nil

theorem components_ne_nil (h : name ∈ components path) : name ≠ [] :=
  of_decide_eq_true (List.mem_filter.1 h).2

theorem not_mem_components (h : name ∈ components path) : pathSeparator ∉ name := by
  rw [← splitView_eq_components] at h
  exact not_mem_splitViewFrom List.not_mem_nil h

theorem components_append_slash {front back : Path} :
    components (front ++ pathSeparator :: back) = components front ++ components back := by
  rw [components, List.splitOn_append_cons_self, List.filter_append]
  rfl

namespace Components

/-! ## The stack of names -/

theorem resolve_append {more : List Path} :
    resolve stack (names ++ more) = resolve (resolve stack names) more :=
  List.foldl_append

theorem enter_plain (h : Plain name) : enter stack name = stack ++ [name] := by
  rw [enter, if_neg h.ne_dot, if_neg h.ne_dotDot]

theorem resolve_plain : ∀ {names stack : List Path}, (∀ name ∈ names, Plain name) →
    resolve stack names = stack ++ names := by
  intro names
  induction names with
  | nil => intro stack _; exact (List.append_nil stack).symm
  | cons name names ih =>
      intro stack h
      obtain ⟨hname, hnames⟩ := List.forall_mem_cons.1 h
      rw [resolve, List.foldl_cons, enter_plain hname, ← resolve, ih hnames, List.append_assoc,
        List.singleton_append]

theorem plain_enter (hstack : ∀ ep ∈ stack, Plain ep) (hnil : name ≠ [])
    (hsep : pathSeparator ∉ name) : ∀ ep ∈ enter stack name, Plain ep := by
  intro ep hep
  rw [enter] at hep
  split at hep
  · exact hstack ep hep
  · next hdot =>
      split at hep
      · exact hstack ep (List.mem_of_mem_dropLast hep)
      · next hdotDot =>
          rcases List.mem_append.1 hep with hin | hin
          · exact hstack ep hin
          · rw [List.mem_singleton.1 hin]
            exact ⟨hnil, hdot, hdotDot, hsep⟩

/-- Whatever names are entered, those that stay are plain. -/
theorem plain_resolve : ∀ {names stack : List Path}, (∀ ep ∈ stack, Plain ep) →
    (∀ name ∈ names, name ≠ [] ∧ pathSeparator ∉ name) →
    ∀ ep ∈ resolve stack names, Plain ep := by
  intro names
  induction names with
  | nil => intro stack hstack _; exact hstack
  | cons name names ih =>
      intro stack hstack h
      obtain ⟨hname, hnames⟩ := List.forall_mem_cons.1 h
      exact ih (plain_enter hstack hname.1 hname.2) hnames

theorem plain_resolve_components (hstack : ∀ ep ∈ stack, Plain ep) :
    ∀ ep ∈ resolve stack (components path), Plain ep :=
  plain_resolve hstack fun _ h => ⟨components_ne_nil h, not_mem_components h⟩

theorem plain_origin : ∀ ep ∈ origin cwd path, Plain ep := by
  rw [origin]
  split
  · intro ep hep
    exact absurd hep List.not_mem_nil
  · exact plain_resolve_components fun ep hep => absurd hep List.not_mem_nil

/-! ## Rendered paths -/

theorem splitOn_flatMap_slash : ∀ {names : List Path} {front : Path}, pathSeparator ∉ front →
    (∀ name ∈ names, Plain name) →
    (front ++ names.flatMap (pathSeparator :: ·)).splitOn pathSeparator = front :: names := by
  intro names
  induction names with
  | nil =>
      intro front hfront _
      rw [List.flatMap_nil, List.append_nil, List.splitOn_eq_singleton hfront]
  | cons name names ih =>
      intro front hfront h
      obtain ⟨hname, hnames⟩ := List.forall_mem_cons.1 h
      rw [List.flatMap_cons, List.cons_append, List.splitOn_append_cons_self_of_not_mem hfront,
        ih hname.separator hnames]

theorem rendered_of_ne_nil (h : names ≠ []) :
    rendered names = names.flatMap (pathSeparator :: ·) :=
  if_neg h

theorem head?_rendered : (rendered names).head? = some pathSeparator := by
  cases names <;> rfl

theorem splitOn_rendered (hnil : names ≠ []) (h : ∀ name ∈ names, Plain name) :
    (rendered names).splitOn pathSeparator = [] :: names := by
  rw [rendered_of_ne_nil hnil]
  exact splitOn_flatMap_slash List.not_mem_nil h

/-- The names of a rendered path are those it was rendered from. -/
theorem components_rendered (h : ∀ name ∈ names, Plain name) :
    components (rendered names) = names := by
  by_cases hnil : names = []
  · rw [hnil]
    rfl
  · rw [components, splitOn_rendered hnil h, List.filter_cons_of_neg (by simp),
      List.filter_eq_self]
    exact fun name hin => decide_eq_true (h name hin).ne_nil

end Components

/-! ## The source's functions -/

theorem normalizePath_eq : normalizePath path = rendered (resolve [] (components path)) := by
  have hplain : ∀ ep ∈ resolve [] (components path), Plain ep :=
    plain_resolve_components fun ep hep => absurd hep List.not_mem_nil
  have hkept : (resolve [] (components path)).filter (· ≠ []) = resolve [] (components path) :=
    List.filter_eq_self.2 fun ep hep => decide_eq_true (hplain ep hep).ne_nil
  rw [normalizePath, splitView_eq_components, normalizeLoop_eq_resolve, List.reverse_nil, hkept,
    rendered]
  refine if_congr ?_ rfl rfl
  rw [List.flatMap_eq_nil_iff]
  constructor
  · intro hall
    refine List.eq_nil_iff_forall_not_mem.2 fun ep hep => ?_
    exact absurd (hall ep hep) (List.cons_ne_nil _ _)
  · intro hnil ep hep
    rw [hnil] at hep
    exact absurd hep List.not_mem_nil

theorem absolutePath_eq :
    absolutePath cwd path = rendered (resolve (origin cwd path) (components path)) := by
  rw [absolutePath, origin]
  split
  · exact normalizePath_eq
  · rw [normalizePath_eq, components_append_slash, resolve_append]

theorem components_absolutePath :
    components (absolutePath cwd path) = resolve (origin cwd path) (components path) := by
  rw [absolutePath_eq, components_rendered (plain_resolve_components plain_origin)]

theorem normalizePath_rendered (h : ∀ name ∈ names, Plain name) :
    normalizePath (rendered names) = rendered names := by
  rw [normalizePath_eq, components_rendered h, resolve_plain h, List.nil_append]

/-- An absolute path is the rendered stack of its names, each of them plain, and it is
normal for good. -/
theorem absolutePath_resolved :
    (absolutePath cwd path).head? = some pathSeparator ∧
    (absolutePath cwd path = [pathSeparator] ∨
      ∀ name ∈ ((absolutePath cwd path).splitOn pathSeparator).tail,
        name ≠ [] ∧ name ≠ dot ∧ name ≠ dotDot) ∧
    absolutePath cwd path = rendered (resolve (origin cwd path) (components path)) ∧
    normalizePath (normalizePath path) = normalizePath path := by
  have hplain : ∀ name ∈ resolve (origin cwd path) (components path), Plain name :=
    plain_resolve_components plain_origin
  refine ⟨?_, ?_, absolutePath_eq, ?_⟩
  · rw [absolutePath_eq]
    exact head?_rendered
  · rw [absolutePath_eq]
    by_cases hnil : resolve (origin cwd path) (components path) = []
    · rw [hnil]
      exact .inl rfl
    · rw [splitOn_rendered hnil hplain]
      exact .inr fun name hin =>
        ⟨(hplain name hin).ne_nil, (hplain name hin).ne_dot, (hplain name hin).ne_dotDot⟩
  · rw [@normalizePath_eq path]
    exact normalizePath_rendered
      (plain_resolve_components fun ep hep => absurd hep List.not_mem_nil)

/-- `a/../../b` in the root directory. -/
example : absolutePath [0x2F] [0x61, 0x2F, 0x2E, 0x2E, 0x2F, 0x2E, 0x2E, 0x2F, 0x62] =
    [0x2F, 0x62] := by decide

end MuditaOS.Vfs
