import Mathlib.Data.List.Basic
import PlanArchive.Database

/-!
# Addresses of databases

The address of a database has a scheme, a server, a path that names the database, and a query, of
which the last two may be missing. `Database.name?` and `Database.maintenanceUrl` do not look for
these parts: both cut the text of the address at its last slash. That is the slash of the path only
if there is a path and no slash in the query, and what stands behind it is the name only if there is
no query. `Address.separated_iff` says for every address what the two functions give, and for which
addresses that is the name and the same address with another name.
-/

namespace PlanArchive

/-- The address of a database in its parts. -/
structure Address where
  scheme : List Char
  /-- The server, with what is needed to reach it. -/
  authority : List Char
  /-- The path without its slash; none when there is no path. -/
  name : Option (List Char)
  query : Option (List Char)
  authority_ne_nil : authority ≠ []
  authority_plain : '/' ∉ authority ∧ '?' ∉ authority
  name_plain : ∀ text ∈ name, '/' ∉ text ∧ '?' ∉ text ∧ ':' ∉ text

namespace Address

variable {a : Address}

/-- The text before the path. -/
def server (a : Address) : List Char := a.scheme ++ "://".toList ++ a.authority

/-- The text of an address. -/
def render (a : Address) : List Char :=
  a.server ++ (a.name.elim [] ('/' :: ·) ++ a.query.elim [] ('?' :: ·))

/-- The name in an address that has one. -/
def named? (a : Address) : Option (List Char) := a.name.filter fun name => !name.isEmpty

/-- The same address with another database. -/
def maintenance (a : Address) : Address :=
  { a with
    name := some Database.maintenanceName.toList
    name_plain := by
      rintro _ ⟨⟩
      decide }

/-- What is kept at an address. -/
def database (a : Address) (part : String) : Database := ⟨String.ofList a.render, part⟩

/-- The name of the database is the name in the address, and if there is one, then the maintenance
database is at the same address but for the name. -/
structure Separated (a : Address) (part : String) : Prop where
  name : (a.database part).name? = a.named?.map String.ofList
  maintenance : ∀ name ∈ a.named?,
    (a.database part).maintenanceUrl = String.ofList a.maintenance.render

/-! ## The last slash -/

theorem exists_last_slash {chars : List Char} (slash : '/' ∈ chars) :
    ∃ stem tail, chars = stem ++ '/' :: tail ∧ '/' ∉ tail := by
  obtain ⟨tail, stem, isReverse, noSlash⟩ :=
    List.eq_append_cons_of_mem (List.mem_reverse.mpr slash)
  refine ⟨stem.reverse, tail.reverse, ?_, by simpa using noSlash⟩
  simpa using congrArg List.reverse isReverse

theorem last_slash_unique {stem otherStem tail otherTail : List Char} (noSlash : '/' ∉ tail)
    (otherNoSlash : '/' ∉ otherTail) (same : stem ++ '/' :: tail = otherStem ++ '/' :: otherTail) :
    stem = otherStem ∧ tail = otherTail := by
  have splits := Database.splitAtLastSlash_append stem noSlash
  rw [same, Database.splitAtLastSlash_append otherStem otherNoSlash] at splits
  simpa [eq_comm] using splits

/-- What stands before a question mark that is the first is what the text shows up to it. -/
theorem takeWhile_of_first_mark {before : List Char} (noMark : '?' ∉ before) (rest : List Char) :
    (before ++ '?' :: rest).takeWhile (· ≠ '?') = before := by
  rw [List.takeWhile_append_of_pos]
  · simp
  · intro c isBefore
    exact decide_eq_true fun isMark => noMark (isMark ▸ isBefore)

theorem slash_mem_render (a : Address) : '/' ∈ a.render := by
  simp [render, server]

/-- The name that is found is what follows the last slash of the whole address. -/
theorem name?_of_cut {stem tail : List Char} (cut : a.render = stem ++ '/' :: tail)
    (noSlash : '/' ∉ tail) (part : String) :
    (a.database part).name? =
      if tail = [] ∨ ':' ∈ tail then none else some (String.ofList tail) := by
  simp [database, cut, Database.name?, Database.lastSegment,
    Database.splitAtLastSlash_append stem noSlash]

/-- The address of the maintenance database is that of the database up to its last slash. -/
theorem maintenanceUrl_of_cut {stem tail : List Char} (cut : a.render = stem ++ '/' :: tail)
    (noSlash : '/' ∉ tail) (part : String) :
    (a.database part).maintenanceUrl =
      String.ofList (stem ++ '/' :: Database.maintenanceName.toList) := by
  refine String.toList_inj.mp ?_
  simp [database, cut, Database.maintenanceUrl, Database.splitAtLastSlash_append stem noSlash]

/-! ## The shapes of an address -/

theorem named?_eq_some {name : List Char} :
    a.named? = some name ↔ a.name = some name ∧ name ≠ [] := by
  simp [named?]

theorem render_of_name {name : List Char} (isName : a.name = some name) :
    a.render = a.server ++ '/' :: (name ++ a.query.elim [] ('?' :: ·)) := by
  simp [render, isName]

theorem render_maintenance (a : Address) :
    a.maintenance.render = a.server ++
      '/' :: (Database.maintenanceName.toList ++ a.query.elim [] ('?' :: ·)) :=
  render_of_name rfl

/-- What it takes that an address with a name is told apart at its last slash. -/
theorem separated_iff_of_named {name stem tail : List Char} (named : a.named? = some name)
    (cut : a.render = stem ++ '/' :: tail) (noSlash : '/' ∉ tail) (part : String) :
    a.Separated part ↔ tail = name ∧
      a.maintenance.render = stem ++ '/' :: Database.maintenanceName.toList := by
  obtain ⟨isName, notEmpty⟩ := named?_eq_some.mp named
  have found := name?_of_cut cut noSlash part
  have isUrl := maintenanceUrl_of_cut cut noSlash part
  constructor
  · rintro ⟨sameName, sameUrl⟩
    rw [found, named] at sameName
    split at sameName
    · cases sameName
    · refine ⟨String.ofList_injective (Option.some.inj sameName), ?_⟩
      exact String.ofList_injective ((sameUrl name named).symm.trans isUrl)
  · rintro ⟨rfl, sameUrl⟩
    refine ⟨?_, fun _ _ => by rw [isUrl, sameUrl]⟩
    rw [found, named, if_neg (not_or.mpr ⟨notEmpty, (a.name_plain tail isName).2.2⟩)]
    rfl

/-- A query that has a slash is cut in its place. -/
theorem separated_iff_of_slash_in_query {name front last : List Char}
    (named : a.named? = some name) (isQuery : a.query = some (front ++ '/' :: last))
    (noSlash : '/' ∉ last) (part : String) :
    a.Separated part ↔
      name = Database.maintenanceName.toList ∧ last = Database.maintenanceName.toList := by
  obtain ⟨isName, -⟩ := named?_eq_some.mp named
  obtain ⟨-, noMark, -⟩ := a.name_plain name isName
  have cut : a.render = (a.server ++ '/' :: (name ++ '?' :: front)) ++ '/' :: last := by
    simp [render_of_name isName, isQuery]
  have otherMark : '?' ∉ Database.maintenanceName.toList := by decide
  rw [separated_iff_of_named named cut noSlash]
  constructor
  · rintro ⟨rfl, sameUrl⟩
    have sameFront : Database.maintenanceName.toList ++ '?' :: (front ++ '/' :: last) =
        last ++ '?' :: (front ++ '/' :: Database.maintenanceName.toList) := by
      simpa [render_maintenance, isQuery] using sameUrl
    have isMaintenance : Database.maintenanceName.toList = last := by
      have upToMark := congrArg (List.takeWhile (· ≠ '?')) sameFront
      rwa [takeWhile_of_first_mark otherMark, takeWhile_of_first_mark noMark] at upToMark
    exact ⟨isMaintenance.symm, isMaintenance.symm⟩
  · rintro ⟨rfl, rfl⟩
    exact ⟨rfl, by simp [render_maintenance, isQuery]⟩

/-- An address with a name is told apart if it has no query, or if both its name and what follows
the last slash of its query are the name of the maintenance database. -/
theorem separated_of_named_iff {name : List Char} (named : a.named? = some name) (part : String) :
    a.Separated part ↔ ∀ query ∈ a.query,
      name = Database.maintenanceName.toList ∧
        '/' :: Database.maintenanceName.toList <:+ query := by
  obtain ⟨isName, notEmpty⟩ := named?_eq_some.mp named
  obtain ⟨nameNoSlash, -, -⟩ := a.name_plain name isName
  cases isQuery : a.query with
  | none =>
    have cut : a.render = a.server ++ '/' :: name := by simp [render_of_name isName, isQuery]
    rw [separated_iff_of_named named cut nameNoSlash]
    simp [render_maintenance, isQuery]
  | some query =>
    by_cases slash : '/' ∈ query
    · obtain ⟨front, last, rfl, noSlash⟩ := exists_last_slash slash
      have maintenanceNoSlash : '/' ∉ Database.maintenanceName.toList := by decide
      have isLast : '/' :: Database.maintenanceName.toList <:+ front ++ '/' :: last ↔
          last = Database.maintenanceName.toList := by
        constructor
        · rintro ⟨stem, same⟩
          exact (last_slash_unique noSlash maintenanceNoSlash same.symm).2
        · rintro rfl
          exact List.suffix_append front _
      rw [separated_iff_of_slash_in_query named isQuery noSlash]
      simp [isLast]
    · -- Everything behind the slash of the path is taken for the name, the query with it.
      have noSlash : '/' ∉ name ++ '?' :: query := by simp [nameNoSlash, slash]
      have cut : a.render = a.server ++ '/' :: (name ++ '?' :: query) := by
        simp [render_of_name isName, isQuery]
      have noSuffix : ¬ '/' :: Database.maintenanceName.toList <:+ query :=
        fun isSuffix => slash (isSuffix.subset List.mem_cons_self)
      rw [separated_iff_of_named named cut noSlash]
      simp [noSuffix]

/-- An address without a name is told apart if nothing that could be a name follows the last
slash. -/
theorem separated_of_nameless_iff {stem tail : List Char} (nameless : a.named? = none)
    (cut : a.render = stem ++ '/' :: tail) (noSlash : '/' ∉ tail) (part : String) :
    a.Separated part ↔ tail = [] ∨ ':' ∈ tail := by
  have found := name?_of_cut cut noSlash part
  constructor
  · rintro ⟨noName, -⟩
    by_contra isName
    rw [found, if_neg isName, nameless] at noName
    cases noName
  · intro noName
    refine ⟨by rw [found, if_pos noName, nameless, Option.map_none], ?_⟩
    intro name named
    rw [nameless] at named
    cases named

/-- Both functions cut the address at its last slash, wherever that is. What they give is the name
of the database and the address of the maintenance database exactly when the address has a name and
no query, or when its name and what follows the last slash of its query are the name of the
maintenance database, or when it has no name and what follows the last slash is empty or has a
colon. -/
theorem separated_iff (a : Address) (part : String) :
    ∃ stem tail, a.render = stem ++ '/' :: tail ∧ '/' ∉ tail ∧
      (a.database part).name? =
        (if tail = [] ∨ ':' ∈ tail then none else some (String.ofList tail)) ∧
      (a.database part).maintenanceUrl =
        String.ofList (stem ++ '/' :: Database.maintenanceName.toList) ∧
      (a.Separated part ↔
        match a.named? with
        | some name => ∀ query ∈ a.query, name = Database.maintenanceName.toList ∧
            '/' :: Database.maintenanceName.toList <:+ query
        | none => tail = [] ∨ ':' ∈ tail) := by
  obtain ⟨stem, tail, cut, noSlash⟩ := exists_last_slash a.slash_mem_render
  refine ⟨stem, tail, cut, noSlash, name?_of_cut cut noSlash part,
    maintenanceUrl_of_cut cut noSlash part, ?_⟩
  cases named : a.named? with
  | none => exact separated_of_nameless_iff named cut noSlash part
  | some name => exact separated_of_named_iff named part

/-- The address that is used when none is given is told apart. -/
theorem separated_iff_defaultUrl :
    let a : Address := ⟨"postgresql".toList, "localhost:5432".toList, some "planvault".toList, none,
      by decide, by decide, by decide⟩
    a.database "p" = ⟨Database.defaultUrl, "p"⟩ ∧ a.Separated "p" := by
  intro a
  obtain ⟨_, _, _, _, _, _, separated⟩ := separated_iff a "p"
  exact ⟨by decide, separated.mpr (by rintro _ ⟨⟩)⟩

/-- A query that names the directory of a socket is cut instead of the path. -/
theorem socket_directory_taken_for_name :
    let a : Address := ⟨"postgresql".toList, "localhost".toList, some "planvault".toList,
      some "host=/var/run/postgresql".toList, by decide, by decide, by decide⟩
    ¬ a.Separated "p" := by
  intro a separated
  have sameName := separated.name
  revert sameName
  decide

end Address

end PlanArchive
