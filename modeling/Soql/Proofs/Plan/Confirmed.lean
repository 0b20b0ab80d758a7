import Soql.Plan.Basic
import Soql.Proofs.Schema.Catalog

namespace Soql

open Text

/-- The name under which a context has a table: that of the object that is found for it, or else the
one it was given where the tenant has an object of this name. -/
inductive Context.Confirms (c : Context) (table : String) : String → Prop
  | described {o : SObject} (found : c.get? table = some o) : Confirms c table o.name
  | listed (undescribed : c.get? table = none) (known : c.isKnown table = true) : Confirms c table table

namespace Context

variable {c : Context} {table name : String}

theorem isKnown_of_get? {o : SObject} (h : c.get? table = some o) : c.isKnown table = true := by
  rw [isKnown, h]
  exact Bool.or_true _

theorem Confirms.isKnown (h : c.Confirms table name) : c.isKnown table = true := by
  cases h with
  | described found => exact isKnown_of_get? found
  | listed undescribed known => exact known

/-- A context has a table under one name. -/
theorem Confirms.unique {other : String} (h : c.Confirms table name) (h' : c.Confirms table other) :
    name = other := by
  cases h with
  | described found =>
    cases h' with
    | described found' =>
      rw [found] at found'
      rw [Option.some.inj found']
    | listed undescribed _ =>
      rw [found] at undescribed
      cases undescribed
  | listed undescribed _ =>
    cases h' with
    | described found =>
      rw [found] at undescribed
      cases undescribed
    | listed _ _ => rfl

/-- The name under which a context has a table is confirmed as it is. -/
theorem Confirms.again (hkeyed : c.catalog.Keyed) (h : c.Confirms table name) : c.Confirms name name := by
  cases h with
  | described found => exact .described (hkeyed.get?_name found)
  | listed undescribed known => exact .listed undescribed known

/-- An object of the catalog has the name, or else the tenant has one in some letter case. -/
theorem Confirms.held (hkeyed : c.catalog.Keyed) (h : c.Confirms table name) :
    (∃ o, (name, o) ∈ c.catalog) ∨ ∃ known ∈ c.known, lower known = lower name := by
  cases h with
  | described found =>
    obtain ⟨key, hentry, -⟩ := Catalog.mem_of_get? found
    rw [hkeyed _ hentry]
    exact .inl ⟨_, hentry⟩
  | listed undescribed known =>
    rw [Context.isKnown, undescribed] at known
    obtain ⟨other, hother, hsame⟩ := List.any_eq_true.mp ((Bool.or_false _).symm.trans known)
    exact .inr ⟨other, hother, beq_iff_eq.mp hsame⟩

/-- A name of the catalog is confirmed as it is. -/
theorem confirms_of_mem_names (hkeyed : c.catalog.Keyed) (h : name ∈ c.catalog.names) :
    c.Confirms name name := by
  obtain ⟨o, ho⟩ := Option.isSome_iff_exists.mp (Table.find?_isSome.mpr h)
  have hget : c.get? name = some o := by
    rw [get?, Catalog.get?, ho]
  have hname : o.name = name := hkeyed _ (Table.mem_of_find? ho)
  rw [← hname] at hget ⊢
  exact .described hget

end Context

namespace Plan

variable {context : Context} {table name request : String} {p : Plan}

theorem confirmedName_eq_some : confirmedName context table = some name ↔ context.Confirms table name := by
  unfold confirmedName
  cases hget : context.get? table with
  | some o =>
    constructor
    · rintro ⟨⟩
      exact .described hget
    · intro h
      exact congrArg some ((Context.Confirms.described hget).unique h)
  | none =>
    simp only [Option.ite_none_right_eq_some, Option.some.injEq]
    constructor
    · rintro ⟨hknown, rfl⟩
      exact .listed hget hknown
    · intro h
      have hlisted := Context.Confirms.listed hget h.isKnown
      exact ⟨h.isKnown, hlisted.unique h⟩

theorem confirmedName_isSome : (confirmedName context table).isSome = context.isKnown table := by
  unfold confirmedName
  cases hget : context.get? table with
  | some o => exact (Context.isKnown_of_get? hget).symm
  | none => cases context.isKnown table <;> rfl

/-- The tables of a list that a context has, each under its name there. -/
theorem forall₂_confirmed (context : Context) (tables : List String) :
    List.Forall₂ context.Confirms (tables.filter context.isKnown)
      (tables.filterMap (confirmedName context)) := by
  induction tables with
  | nil => exact .nil
  | cons table tables ih =>
    cases hname : confirmedName context table with
    | some name =>
      have hconfirms := confirmedName_eq_some.mp hname
      rw [List.filterMap_cons_some hname, List.filter_cons_of_pos hconfirms.isKnown]
      exact .cons hconfirms ih
    | none =>
      have hunknown : ¬context.isKnown table = true := by
        rw [← confirmedName_isSome, hname]
        exact Bool.false_ne_true
      rw [List.filterMap_cons_none hname, List.filter_cons_of_neg hunknown]
      exact ih

/-- The tables that a plan names, and the junction objects that the wording of a request requires. -/
def namedTables (p : Plan) (request : String) : List String :=
  p.tables ++ Vocabulary.junctionsIn request

/-- The tables wanted are those named, up to junction objects that were named before or are unknown. -/
theorem mem_wantedTables :
    table ∈ p.wantedTables request context ∧ context.isKnown table = true ↔
      table ∈ p.namedTables request ∧ context.isKnown table = true := by
  rw [wantedTables, namedTables, List.mem_append, List.mem_append, List.mem_filter]
  constructor
  · rintro ⟨hplan | ⟨hjunction, -⟩, hknown⟩
    · exact ⟨.inl hplan, hknown⟩
    · exact ⟨.inr hjunction, hknown⟩
  · rintro ⟨hplan | hjunction, hknown⟩
    · exact ⟨.inl hplan, hknown⟩
    · by_cases hplan : table ∈ p.tables
      · exact ⟨.inl hplan, hknown⟩
      · exact ⟨.inr ⟨hjunction, by simp [hplan, hknown]⟩, hknown⟩

/-- The names under which a context has the tables wanted are those of the tables named. -/
theorem mem_confirmedNames :
    name ∈ (p.wantedTables request context).filterMap (confirmedName context) ↔
      ∃ table ∈ p.namedTables request, context.Confirms table name := by
  simp only [List.mem_filterMap, confirmedName_eq_some]
  constructor
  · rintro ⟨table, htable, h⟩
    exact ⟨table, (mem_wantedTables.mp ⟨htable, h.isKnown⟩).1, h⟩
  · rintro ⟨table, htable, h⟩
    exact ⟨table, (mem_wantedTables.mpr ⟨htable, h.isKnown⟩).1, h⟩

/-- The tables of a plan in line are those confirmed, each once, or else the first of the scope. -/
theorem adjusted_tables (p : Plan) (request : String) (context : Context) :
    (p.adjusted request context).tables =
      if (p.wantedTables request context).filterMap (confirmedName context) = [] then context.scope.take 1
      else ((p.wantedTables request context).filterMap (confirmedName context)).eraseDups := by
  change confirmedTables context (p.wantedTables request context) = _
  unfold confirmedTables
  split
  case h_1 hnone => rw [if_pos hnone]
  case h_2 hsome => rw [if_neg hsome]

/-- The object that a column belongs to is what stands before its first point. -/
theorem columnTable_eq (column : String) :
    columnTable column = lower (.ofList (column.toList.takeWhile (· != '.'))) := by
  have hfirst (s : List Char) : ∃ others, pieces (· == '.') s = s.takeWhile (· != '.') :: others := by
    induction s with
    | nil => exact ⟨[], rfl⟩
    | cons d s ih =>
      obtain ⟨others, hothers⟩ := ih
      by_cases hd : d = '.'
      · exact ⟨pieces (· == '.') s, by simp [pieces, hd]⟩
      · exact ⟨others, by simp [pieces, hd, hothers]⟩
  obtain ⟨others, hothers⟩ := hfirst column.toList
  rw [columnTable, splitAt, hothers]
  rfl

/-- A plan and the same plan in line with a request and a context. -/
structure InLine (p q : Plan) (request : String) (context : Context) : Prop where
  distinct : q.tables.Nodup
  /-- the tables are objects that there are, and were named; where none of those named is there, the
  first object of the scope stands in for them -/
  held : (∀ t ∈ q.tables, ((∃ o, (t, o) ∈ context.catalog) ∨ ∃ known ∈ context.known, lower known = lower t) ∧
      ∃ table ∈ p.namedTables request, context.Confirms table t) ∨
    (∀ table ∈ p.namedTables request, context.isKnown table = false) ∧ q.tables = context.scope.take 1
  /-- the tables of the plan that there are stay in their order, each where it was named first -/
  survivors : ∃ names, List.Forall₂ context.Confirms (p.tables.filter context.isKnown) names ∧
    names.eraseDups <+: q.tables
  junctions : ∀ junction ∈ Vocabulary.junctionsIn request, context.isKnown junction = true →
    ∃ name ∈ q.tables, context.Confirms junction name
  columns : q.columns = p.columns.filter fun column =>
    q.tables.any fun t => sameLower t (.ofList (column.toList.takeWhile (· != '.')))
  rest : q.summary = p.summary ∧ q.joinLogic = p.joinLogic ∧ q.globalContext = p.globalContext

theorem adjusted_inLine (hkeyed : context.catalog.Keyed) (p : Plan) (request : String) :
    InLine p (p.adjusted request context) request context := by
  have htables := adjusted_tables p request context
  have hcolumns : (p.adjusted request context).columns = p.columns.filter fun column =>
      (p.adjusted request context).tables.any fun t =>
        sameLower t (.ofList (column.toList.takeWhile (· != '.'))) := by
    apply List.filter_congr
    intro column _
    rw [Bool.eq_iff_iff, List.contains_iff_mem, List.mem_map, List.any_eq_true, columnTable_eq]
    simp only [sameLower, beq_iff_eq]
    rfl
  by_cases hnone : (p.wantedTables request context).filterMap (confirmedName context) = []
  · rw [if_pos hnone] at htables
    -- No table that is named is known, so there is nothing to keep in order and no junction to add.
    have hunknown : ∀ table ∈ p.namedTables request, context.isKnown table = false := by
      intro table htable
      rw [← confirmedName_isSome, ← Bool.not_eq_true]
      intro hsome
      obtain ⟨name, hname⟩ := Option.isSome_iff_exists.mp hsome
      have hmem := mem_confirmedNames.mpr ⟨table, htable, confirmedName_eq_some.mp hname⟩
      rw [hnone] at hmem
      cases hmem
    have hsurvivors : p.tables.filter context.isKnown = [] := by
      rw [List.filter_eq_nil_iff]
      intro table htable
      rw [hunknown table (List.mem_append_left _ htable)]
      exact Bool.false_ne_true
    refine ⟨?_, .inr ⟨hunknown, htables⟩, ⟨[], ?_, List.nil_prefix⟩, ?_, hcolumns, rfl, rfl, rfl⟩
    · rw [htables]
      cases context.scope <;> simp
    · rw [hsurvivors]
      exact .nil
    · intro junction hjunction hknown
      rw [hunknown junction (List.mem_append_right _ hjunction)] at hknown
      cases hknown
  · rw [if_neg hnone] at htables
    have hmem (name : String) : name ∈ (p.adjusted request context).tables ↔
        ∃ table ∈ p.namedTables request, context.Confirms table name := by
      rw [htables, List.mem_eraseDups, mem_confirmedNames]
    refine ⟨?_, .inl ?_, ⟨_, forall₂_confirmed context p.tables, ?_⟩, ?_, hcolumns, rfl, rfl, rfl⟩
    · rw [htables]
      exact nodup_eraseDups _
    · intro t ht
      obtain ⟨table, htable, h⟩ := (hmem t).mp ht
      exact ⟨h.held hkeyed, table, htable, h⟩
    · rw [htables, wantedTables, List.filterMap_append, List.eraseDups_append]
      exact List.prefix_append _ _
    · intro junction hjunction hknown
      rw [← confirmedName_isSome] at hknown
      obtain ⟨name, hname⟩ := Option.isSome_iff_exists.mp hknown
      have hconfirms := confirmedName_eq_some.mp hname
      exact ⟨name, (hmem name).mpr ⟨junction, List.mem_append_right _ hjunction, hconfirms⟩, hconfirms⟩

/-- Tables that are confirmed as they are, and in which nothing is missing, stay as they are. -/
theorem adjusted_tables_of_settled (hdistinct : p.tables.Nodup)
    (hown : ∀ t ∈ p.tables, context.Confirms t t)
    (hjunctions : ∀ junction ∈ Vocabulary.junctionsIn request, ∀ name, context.Confirms junction name →
      name ∈ p.tables)
    (hempty : p.tables = [] → context.scope = []) :
    (p.adjusted request context).tables = p.tables := by
  have hplan : p.tables.filterMap (confirmedName context) = p.tables := by
    have hsome : p.tables.filterMap (confirmedName context) = p.tables.filterMap some :=
      List.filterMap_congr fun t ht => confirmedName_eq_some.mpr (hown t ht)
    rw [hsome, List.filterMap_some]
  rw [adjusted_tables, wantedTables, List.filterMap_append, hplan]
  -- The junctions that the request implies are among the tables already.
  have hmore : ∀ name ∈ ((Vocabulary.junctionsIn request).filter fun junction =>
      !p.tables.contains junction && context.isKnown junction).filterMap (confirmedName context),
      name ∈ p.tables := by
    intro name hname
    obtain ⟨junction, hjunction, hconfirmed⟩ := List.mem_filterMap.mp hname
    exact hjunctions junction (List.mem_filter.mp hjunction).1 name (confirmedName_eq_some.mp hconfirmed)
  generalize ((Vocabulary.junctionsIn request).filter fun junction =>
    !p.tables.contains junction && context.isKnown junction).filterMap (confirmedName context) = more at hmore
  split
  case isTrue hnone =>
    have hnil := (List.append_eq_nil_iff.mp hnone).1
    rw [hnil, hempty hnil]
    rfl
  case isFalse =>
    have hnew : more.removeAll p.tables = [] := by
      rw [List.removeAll, List.filter_eq_nil_iff]
      intro name hname
      simp [hmore name hname]
    rw [List.eraseDups_append, hnew, List.eraseDups_nil, List.append_nil, eraseDups_of_nodup hdistinct]

/-- Whatever a plan names and a request asks for, the plan in line with both has distinct tables that
there are, and is in line with them for good. -/
theorem adjusted_settled (hkeyed : context.catalog.Keyed)
    (hscope : ∀ name ∈ context.scope, name ∈ context.catalog.names) (p : Plan) (request : String) :
    InLine p (p.adjusted request context) request context ∧
      (p.adjusted request context).adjusted request context = p.adjusted request context := by
  have hline := adjusted_inLine hkeyed p request
  refine ⟨hline, ?_⟩
  -- What is left is confirmed under its own name, so that a second look finds the same tables.
  have hown : ∀ t ∈ (p.adjusted request context).tables, context.Confirms t t := by
    intro t ht
    rcases hline.held with hheld | ⟨-, hfallback⟩
    · obtain ⟨-, table, -, h⟩ := hheld t ht
      exact h.again hkeyed
    · rw [hfallback] at ht
      exact Context.confirms_of_mem_names hkeyed (hscope t (List.mem_of_mem_take ht))
  have hjunctions : ∀ junction ∈ Vocabulary.junctionsIn request, ∀ name, context.Confirms junction name →
      name ∈ (p.adjusted request context).tables := by
    intro junction hjunction name h
    obtain ⟨other, hother, h'⟩ := hline.junctions junction hjunction h.isKnown
    rw [h.unique h']
    exact hother
  have hempty : (p.adjusted request context).tables = [] → context.scope = [] := by
    intro hnil
    rw [adjusted_tables] at hnil
    split at hnil
    case isTrue => simpa using hnil
    case isFalse hsome =>
      obtain ⟨name, hname⟩ := List.exists_mem_of_ne_nil _ hsome
      have hmem := List.mem_eraseDups.mpr hname
      rw [hnil] at hmem
      cases hmem
  have htables := adjusted_tables_of_settled hline.distinct hown hjunctions hempty
  have hcolumns : ((p.adjusted request context).adjusted request context).columns =
      (p.adjusted request context).columns := by
    rw [(adjusted_inLine hkeyed (p.adjusted request context) request).columns, htables, hline.columns,
      List.filter_filter]
    simp only [Bool.and_self]
  generalize (p.adjusted request context) = q at htables hcolumns ⊢
  -- Only the tables and the columns of a plan are adjusted.
  calc q.adjusted request context
      = { q with
          tables := (q.adjusted request context).tables
          columns := (q.adjusted request context).columns } := rfl
    _ = q := by rw [htables, hcolumns]

def dealsAndTeams : Context :=
  .ofObjects [{ name := "Opportunity" }, { name := "opportunityteammember" }]
    (some ["Opportunity", "opportunityteammember", "Account"]) [] none

theorem adjusted_settled_deals :
    ∃ p q : Plan, p.tables = ["OPPORTUNITY", "Widget", "ACCOUNT", "Opportunity"] ∧
      p.adjusted "deals Jane is working on" dealsAndTeams = q ∧
      q.tables = ["Opportunity", "ACCOUNT", "opportunityteammember"] ∧
      q.columns = ["opportunity.Name", "Account"] ∧
      InLine p q "deals Jane is working on" dealsAndTeams ∧
      q.adjusted "deals Jane is working on" dealsAndTeams = q := by
  have hscope : ∀ name ∈ dealsAndTeams.scope, name ∈ dealsAndTeams.catalog.names := fun _ h => h
  have hsettled := adjusted_settled (Catalog.keyed_ofObjects _) hscope
    { tables := ["OPPORTUNITY", "Widget", "ACCOUNT", "Opportunity"],
      columns := ["opportunity.Name", "Widget.Size", "Account"] } "deals Jane is working on"
  exact ⟨_, _, rfl, rfl, by decide +kernel, by decide +kernel, hsettled.1, hsettled.2⟩

end Plan

end Soql
