import ContainerWS.Kubernetes.Manifests

/-! Where the objects of a stream go that has been rewritten to one namespace: what the list of
kinds and the discovery of the cluster have to agree on. -/
namespace ContainerWS.Kubernetes
open Fallible GoStrings TextRows

section
variable {cs : List Char} {c : Char}

theorem unixEndsSelf (clean : '\x0d' ∉ cs) : unixEnds cs = cs := by
  induction cs using unixEnds.induct with
  | case1 rest ih => simp at clean
  | case2 c rest other ih =>
    rw [unixEnds,ih (fun mem => clean (List.mem_cons_of_mem _ mem))]
    exact other
  | case3 => rfl

theorem commentHead {s : String} (start : s.toList.head? = some c) (other : c ≠ '#') : s ≠ "" ∧ hasPrefix s "#" = false := by
  refine ⟨?_,?_⟩
  · rintro rfl
    cases start
  · rw [hasPrefix,Bool.eq_false_iff]
    intro comment
    obtain ⟨rest,whole⟩ := List.isPrefixOf_iff_prefix.mp comment
    rw [← whole] at start
    exact other (Option.some_inj.mp start).symm

end

section
variable {doc : String}

theorem plainHead (plain : Plain doc) : ∃ c rest, doc.toList = c :: rest ∧ c ≠ '#' ∧ isSpace c = false := by
  obtain ⟨c,head,other⟩ := plain.field
  have solid := (trimSpaceSolid doc).1 c
  rw [plain.trimmed] at solid
  cases chars : doc.toList with
  | nil =>
    rw [chars] at head
    cases head
  | cons d rest =>
    rw [chars] at head
    obtain rfl := Option.some_inj.mp head
    exact ⟨d,rest,rfl,other,solid (by rw [chars]; rfl)⟩

theorem solidNewline {c : Char} (solid : isSpace c = false) : c ≠ '\n' := by
  rintro rfl
  cases solid

theorem plainFirst (plain : Plain doc) : ∃ c, (trimSpace (firstLine doc.toList)).toList.head? = some c ∧ c ≠ '#' := by
  obtain ⟨c,rest,chars,other,solid⟩ := plainHead plain
  refine ⟨c,?_,other⟩
  rw [firstLine,chars,List.takeWhile_cons_of_pos (by simpa using solidNewline solid)]
  exact trimHead solid

theorem afterMarkPlain (plain : Plain doc) : afterMark ('\n' :: doc.toList) = doc.toList := by
  obtain ⟨c,head,other⟩ := plainFirst plain
  obtain ⟨filled,noComment⟩ := commentHead head other
  unfold afterMark
  simp only [List.head?_cons,if_true,List.tail_cons]
  split
  · rw [if_neg]
    rintro (blank | comment | ends)
    · exact filled blank
    · rw [noComment] at comment
      cases comment
    · exact plain.noEnd ends
  · rfl

theorem onlyCommentsPlain (plain : Plain doc) : onlyComments doc = false := by
  obtain ⟨c,rest,chars,other,solid⟩ := plainHead plain
  have first : ∃ part ∈ doc.toList.splitOn '\n', ∃ later, part = c :: later := by
    rw [chars,List.splitOn_cons_eq_if_modifyHead,if_neg (by simpa using solidNewline solid)]
    cases parts : rest.splitOn '\n' with
    | nil => exact absurd parts (List.splitOn_ne_nil _ _)
    | cons part others => exact ⟨c :: part,List.mem_cons_self,part,rfl⟩
  obtain ⟨part,mem,later,rfl⟩ := first
  have head : (trimSpace (String.ofList (c :: later))).toList.head? = some c := trimHead solid
  obtain ⟨filled,noComment⟩ := commentHead head other
  rw [onlyComments,List.all_eq_false]
  refine ⟨String.ofList (c :: later),List.mem_map_of_mem mem,?_⟩
  rw [noComment,decide_eq_false filled]
  exact Bool.false_ne_true

theorem keepPlain (plain : Plain doc) : keepDocument doc = some doc := by
  obtain ⟨c,rest,chars,other,solid⟩ := plainHead plain
  have filled : doc ≠ "" := by
    rintro rfl
    cases chars
  have noEnd : doc ≠ "..." := by
    rintro rfl
    exact plain.noEnd (by decide)
  unfold keepDocument
  rw [plain.trimmed,if_neg (by simp [filled,noEnd]),onlyCommentsPlain plain]
  rfl

end

/- The end of a marker's line belongs to the document behind it. -/
theorem joinMarks (first : String) (rest : List String) : (joinDocuments (first :: rest)).toList =
    newlineMark.intercalate (first.toList :: rest.map (fun d => '\n' :: d.toList)) := by
  rw [joinDocuments,String.toList_ofList]
  induction rest generalizing first with
  | nil => simp
  | cons q rest ih =>
    have mark : "\n---\n".toList = newlineMark ++ ['\n'] := by decide
    rw [List.map_cons,List.map_cons,List.intercalate_cons_cons,List.map_cons,List.intercalate_cons_cons,List.intercalate_cons_cons_left,← ih q,
      List.map_cons,mark]
    simp

theorem splitPlain {docs : List String} (some_ : docs ≠ []) (plain : ∀ d ∈ docs, Plain d) :
    SplitYAMLDocuments (joinDocuments docs) = docs := by
  cases docs with
  | nil => exact absurd rfl some_
  | cons first rest =>
    obtain ⟨here,later⟩ := List.forall_mem_cons.mp plain
    have clean : '\x0d' ∉ (joinDocuments (first :: rest)).toList := by
      intro mem
      rw [joinDocuments,String.toList_ofList] at mem
      rcases Separated.intercalateMem mem with between | ⟨p,there,inside⟩
      · revert between
        decide
      · obtain ⟨d,listed,rfl⟩ := List.mem_map.mp there
        exact (plain d listed).noReturn inside
    have free : ∀ p ∈ first.toList :: rest.map (fun d => '\n' :: d.toList), ¬newlineMark <:+: p := by
      rw [List.forall_mem_cons]
      refine ⟨fun inside => here.noMark (inside.trans (List.infix_cons_iff.mpr (.inr List.infix_rfl))),?_⟩
      intro p mem
      obtain ⟨d,there,rfl⟩ := List.mem_map.mp mem
      exact (later d there).noMark
    have parts : Separated.split newlineMark (joinDocuments (first :: rest)).toList = first.toList :: rest.map (fun d => '\n' :: d.toList) := by
      rw [joinMarks]
      exact Separated.splitJoin (by decide) (List.cons_ne_nil _ _) free
    have behind : (rest.map (fun d => '\n' :: d.toList)).map afterMark = rest.map String.toList := by
      rw [List.map_map]
      exact List.map_congr_left (fun d mem => afterMarkPlain (later d mem))
    have kept : ((first :: rest).map String.toList).filterMap (fun doc => keepDocument (String.ofList doc)) = first :: rest := by
      rw [List.filterMap_map,filterMapSelfIff]
      intro d mem
      rw [Function.comp_apply,String.ofList_toList]
      exact keepPlain (plain d mem)
    rw [SplitYAMLDocuments,unixEndsSelf clean,parts]
    dsimp only
    rw [behind,← List.map_cons,kept]

/-! One document alone. -/
section
variable {ν : Type} {yaml : Yaml ν} {doc text ns : String}

theorem joinSingle (doc : String) : joinDocuments [doc] = doc := by
  rw [joinDocuments,List.map_singleton,List.intercalate_singleton,String.ofList_toList]

theorem singlePlain (plain : Plain doc) : SplitYAMLDocuments doc = [doc] := by
  have parts := splitPlain (List.cons_ne_nil doc []) (by simpa using plain)
  rwa [joinSingle] at parts

theorem trimNewline (plain : Plain doc) : trimSpace (doc ++ "\n") = doc := by
  obtain ⟨c,rest,chars,_,solid⟩ := plainHead plain
  have front : trimLeft (doc.toList ++ ['\n']) = doc.toList ++ ['\n'] := by
    rw [chars]
    exact trimLeftEnds (by simpa using solid)
  have back : trimLeft (doc.toList ++ ['\n']).reverse = trimLeft doc.toList.reverse := by
    rw [List.reverse_append]
    rfl
  have own : trimLeft doc.toList = doc.toList := by
    rw [chars]
    exact trimLeftEnds (by simpa using solid)
  have trimmed := plain.trimmed
  unfold trimSpace at trimmed
  rw [own] at trimmed
  rw [trimSpace,String.toList_append,show "\n".toList = ['\n'] from rfl,front,back,trimmed]

theorem plainChars {c : Char} {rest : List Char} (solid : isSpace c = false) (field : c ≠ '#' ∧ c ≠ '.')
    (back : trimLeft (c :: rest).reverse = (c :: rest).reverse) (noReturn : '\x0d' ∉ c :: rest)
    (noMark : ¬newlineMark <:+: '\n' :: c :: rest) : Plain (String.ofList (c :: rest)) := by
  have front : trimLeft (c :: rest) = c :: rest := trimLeftEnds (by simpa using solid)
  have first : c ≠ '\n' := by
    rintro rfl
    cases solid
  refine ⟨?_,?_,?_,?_,?_⟩
  · rw [trimSpace,String.toList_ofList,front,back,List.reverse_reverse]
  · rwa [String.toList_ofList]
  · rwa [String.toList_ofList]
  · exact ⟨c,by rw [String.toList_ofList]; rfl,field.1⟩
  · intro same
    rw [String.toList_ofList,firstLine,List.takeWhile_cons_of_pos (by simpa using first)] at same
    have head : (trimSpace (String.ofList (c :: rest.takeWhile (fun c => c != '\n')))).toList.head? =
        some c := trimHead solid
    rw [same] at head
    exact field.2 (Option.some.inj head).symm

theorem analyzeSingle {shared : Option String} {ref : ManifestRef} (plain : Plain doc)
    (analyzed : analyzeDocument yaml none doc 0 = .ok (shared,ref)) : AnalyzeManifests yaml doc = .ok ⟨shared.getD "",[ref]⟩ := by
  unfold AnalyzeManifests
  rw [singlePlain plain]
  dsimp only [analyzeFrom]
  rw [if_neg (List.cons_ne_nil doc []),analyzed]
  rfl

theorem rewriteSingle {o : Object ν} (plain : Plain doc) (trimmed : trimSpace ns = ns) (filled : ns ≠ "")
    (read : yaml.Unmarshal doc = .ok (some o)) (written : yaml.Marshal (o.within ns) = .ok text) :
    RewriteManifestNamespace yaml doc ns = .ok (trimSpace text) := by
  unfold RewriteManifestNamespace
  rw [singlePlain plain]
  dsimp only
  have one : rewriteDocument yaml ns (doc,0) = .ok (some (trimSpace text)) := by
    rw [rewriteDocument,read]
    dsimp only
    rw [written]
  rw [trimmed,if_neg filled,if_neg (List.cons_ne_nil doc [])]
  dsimp only [List.zipIdx_cons,List.zipIdx_nil]
  rw [List.mapM_cons,one]
  exact congrArg Except.ok (joinSingle _)

/- An accepted stream of one document. -/
theorem acceptedSingle {o : Object ν} {whole : String} {shared shared' : Option String} {ref ref' : ManifestRef} (plain : Plain doc)
    (plainText : Plain text) (trimmed : trimSpace ns = ns) (filled : ns ≠ "") (read : yaml.Unmarshal doc = .ok (some o))
    (written : yaml.Marshal (o.within ns) = .ok whole) (text_ : trimSpace whole = text)
    (before : analyzeDocument yaml none doc 0 = .ok (shared,ref)) (after : analyzeDocument yaml none text 0 = .ok (shared',ref')) :
    EnsureUniformNamespace yaml doc ns = .ok (text,ns,⟨ns,[if ref'.clusterScoped then ref' else { ref' with namespace_ := ns }]⟩) := by
  unfold EnsureUniformNamespace
  rw [analyzeSingle plain before]
  dsimp only [bind,Except.bind]
  rw [trimmed,if_pos filled,if_neg filled,rewriteSingle plain trimmed filled read written,text_]
  dsimp only
  rw [analyzeSingle plainText after]
  rfl

end

/- What the analysis makes sure of. -/
structure Proper {ν : Type} (o : Object ν) : Prop where
  kind : o.kind ≠ ""
  apiVersion : o.apiVersion ≠ ""
  name : trimSpace o.name ≠ ""
  alone : IsClusterScopedKind o.kind = true → trimSpace o.GetNamespace = ""

section
variable {ν : Type} {yaml : Yaml ν}

/- The documents are read as these objects. -/
def Reads (yaml : Yaml ν) (docs : List String) (os : List (Object ν)) : Prop :=
  docs.map yaml.Unmarshal = os.map (fun o => .ok (some o))

theorem analyzeDocumentOk {shared shared' : Option String} {doc : String} {i : Nat} {ref : ManifestRef}
    (ok : analyzeDocument yaml shared doc i = .ok (shared',ref)) :
    ∃ o, yaml.Unmarshal doc = .ok (some o) ∧ Proper o ∧ ref.clusterScoped = IsClusterScopedKind o.kind ∧
      (shared' = shared ∨ IsClusterScopedKind o.kind = false) := by
  unfold analyzeDocument at ok
  cases read : yaml.Unmarshal doc with
  | error e =>
    rw [read] at ok
    exact nomatch ok
  | ok found =>
    rw [read] at ok
    cases found with
    | none => exact nomatch ok
    | some o =>
      refine ⟨o,rfl,?_⟩
      dsimp only at ok
      by_cases typed : o.kind = "" ∨ o.apiVersion = ""
      · rw [if_pos typed] at ok
        exact nomatch ok
      obtain ⟨kind,apiVersion⟩ := not_or.mp typed
      rw [if_neg typed] at ok
      by_cases named : trimSpace o.name = ""
      · rw [if_pos named] at ok
        exact nomatch ok
      rw [if_neg named] at ok
      cases listed : IsClusterScopedKind o.kind with
      | true =>
        rw [listed,if_pos rfl] at ok
        by_cases placed : trimSpace o.GetNamespace ≠ ""
        · rw [if_pos placed] at ok
          exact nomatch ok
        rw [if_neg placed] at ok
        obtain ⟨rfl,rfl⟩ := Prod.mk.inj (Except.ok.inj ok)
        exact ⟨⟨kind,apiVersion,named,fun _ => not_not.mp placed⟩,rfl,.inl rfl⟩
      | false =>
        rw [listed,if_neg Bool.false_ne_true] at ok
        have proper : Proper o := ⟨kind,apiVersion,named,fun other => absurd (listed.symm.trans other) Bool.false_ne_true⟩
        refine ⟨proper,?_,.inr rfl⟩
        split at ok
        · obtain ⟨_,rfl⟩ := Prod.mk.inj (Except.ok.inj ok)
          rfl
        · cases shared with
          | none =>
            obtain ⟨_,rfl⟩ := Prod.mk.inj (Except.ok.inj ok)
            rfl
          | some other =>
            dsimp only at ok
            by_cases differs : trimSpace o.GetNamespace ≠ other
            · rw [if_pos differs] at ok
              exact nomatch ok
            rw [if_neg differs] at ok
            obtain ⟨_,rfl⟩ := Prod.mk.inj (Except.ok.inj ok)
            rfl

theorem analyzeFromOk {shared shared' : Option String} {docs : List String} {i : Nat} {refs : List ManifestRef}
    (ok : analyzeFrom yaml shared docs i = .ok (shared',refs)) :
    ∃ os, Reads yaml docs os ∧ (∀ o ∈ os, Proper o) ∧
      refs.map ManifestRef.clusterScoped = os.map (fun o => IsClusterScopedKind o.kind) ∧
      (shared' = shared ∨ ∃ o ∈ os, IsClusterScopedKind o.kind = false) := by
  induction docs generalizing shared i refs with
  | nil =>
    cases ok
    exact ⟨[],rfl,nofun,rfl,.inl rfl⟩
  | cons doc rest ih =>
    rw [analyzeFrom,bindOk] at ok
    obtain ⟨⟨middle,ref⟩,first,ok⟩ := ok
    rw [bindOk] at ok
    obtain ⟨⟨last,later⟩,behind,ok⟩ := ok
    cases ok
    obtain ⟨o,read,proper,scope,change⟩ := analyzeDocumentOk first
    obtain ⟨os,reads,propers,scopes,changes⟩ := ih behind
    refine ⟨o :: os,?_,List.forall_mem_cons.mpr ⟨proper,propers⟩,?_,?_⟩
    · rw [Reads,List.map_cons,read,reads]
      rfl
    · rw [List.map_cons,List.map_cons,scope,scopes]
    · rcases changes with same | ⟨p,mem,unlisted⟩
      · rcases change with first | unlisted
        · exact .inl (same.trans first)
        · exact .inr ⟨o,List.mem_cons_self,unlisted⟩
      · exact .inr ⟨p,List.mem_cons_of_mem _ mem,unlisted⟩

theorem analyzeOk {content : String} {analysis : ManifestAnalysis} (ok : AnalyzeManifests yaml content = .ok analysis) :
    SplitYAMLDocuments content ≠ [] ∧ ∃ os, Reads yaml (SplitYAMLDocuments content) os ∧ (∀ o ∈ os, Proper o) ∧
      analysis.resources.map ManifestRef.clusterScoped = os.map (fun o => IsClusterScopedKind o.kind) ∧
      (analysis.namespace_ = "" ∨ ∃ o ∈ os, IsClusterScopedKind o.kind = false) := by
  unfold AnalyzeManifests at ok
  dsimp only at ok
  split at ok <;> try contradiction
  rename_i filled
  rw [bindOk] at ok
  obtain ⟨⟨shared,refs⟩,analyzed,ok⟩ := ok
  cases ok
  obtain ⟨os,reads,proper,scopes,change⟩ := analyzeFromOk analyzed
  refine ⟨filled,os,reads,proper,scopes,?_⟩
  rcases change with rfl | unlisted
  · exact .inl rfl
  · exact .inr unlisted

/- A document that is rewritten: what it was read as, its new text, and what that is read as. -/
structure Rewriting (ν : Type) where
  before : Object ν
  text : String
  after : Object ν

structure Rewritten (yaml : Yaml ν) (ns : String) (r : Rewriting ν) : Prop where
  plain : Plain r.text
  again : yaml.Unmarshal r.text = .ok (some r.after)
  close : r.after = r.before.within ns ∨ Chomped (r.before.within ns) r.after
  same : r.after = r.before.within ns ↔ yaml.block (r.before.within ns) = false
  made : ∃ text, yaml.Marshal (r.before.within ns) = .ok text ∧ r.text = trimSpace text

theorem rewriteDocumentOk {ns doc : String} {i : Nat} {o : Object ν} {out : Option String} (filled : ns ≠ "")
    (read : yaml.Unmarshal doc = .ok (some o)) (ok : rewriteDocument yaml ns (doc,i) = .ok out) :
    ∃ text o', out = some text ∧ Rewritten yaml ns ⟨o,text,o'⟩ := by
  unfold rewriteDocument at ok
  rw [read] at ok
  dsimp only at ok
  split at ok <;> try contradiction
  rename_i text written
  cases ok
  have whole : yaml.Unmarshal text = .ok (some (o.within ns)) := by
    unfold Object.within at written ⊢
    split at written
    · rename_i listed
      rw [if_pos listed]
      exact yaml.back read written
    · rename_i unlisted
      rw [if_neg unlisted]
      exact yaml.backWithin read filled written
  cases block : yaml.block (o.within ns) with
  | false =>
    refine ⟨_,o.within ns,rfl,yaml.plain written,?_,?_,?_,text,written,rfl⟩
    · rw [yaml.trims written block,whole]
    · dsimp only
      exact .inl rfl
    · dsimp only
      exact iff_of_true rfl block
  | true =>
    obtain ⟨o',again,chomped,differs⟩ := yaml.chomps written block whole
    refine ⟨_,o',rfl,yaml.plain written,again,.inr chomped,iff_of_false differs ?_,text,written,rfl⟩
    exact fun other => Bool.false_ne_true (other.symm.trans block)

theorem rewriteAllOk {ns : String} {docs : List String} {i : Nat} {os : List (Object ν)} {out : List (Option String)} (filled : ns ≠ "")
    (reads : Reads yaml docs os) (ok : (docs.zipIdx i).mapM (rewriteDocument yaml ns) = .ok out) :
    ∃ rs : List (Rewriting ν), rs.map Rewriting.before = os ∧ out = rs.map (fun r => some r.text) ∧ ∀ r ∈ rs, Rewritten yaml ns r := by
  induction docs generalizing i os out with
  | nil =>
    obtain rfl : os = [] := List.map_eq_nil_iff.mp reads.symm
    cases ok
    exact ⟨[],rfl,rfl,by simp⟩
  | cons doc rest ih =>
    cases os with
    | nil => cases reads
    | cons o os =>
      obtain ⟨read,reads⟩ := List.cons.inj reads
      simp only [List.zipIdx_cons,List.mapM_cons,bindOk] at ok
      obtain ⟨first,here,later,behind,ok⟩ := ok
      cases ok
      obtain ⟨text,o',rfl,rewritten⟩ := rewriteDocumentOk filled read here
      obtain ⟨rs,rfl,rfl,all⟩ := ih reads behind
      exact ⟨⟨o,text,o'⟩ :: rs,rfl,rfl,List.forall_mem_cons.mpr ⟨rewritten,all⟩⟩

theorem rewriteOk {content ns rewritten : String} {os : List (Object ν)} (trimmed : trimSpace ns = ns)
    (reads : Reads yaml (SplitYAMLDocuments content) os) (ok : RewriteManifestNamespace yaml content ns = .ok rewritten) :
    ∃ rs : List (Rewriting ν), rs.map Rewriting.before = os ∧ SplitYAMLDocuments rewritten = rs.map Rewriting.text ∧
      rewritten = joinDocuments (rs.map Rewriting.text) ∧ ∀ r ∈ rs, Rewritten yaml ns r := by
  unfold RewriteManifestNamespace at ok
  dsimp only at ok
  rw [trimmed] at ok
  split at ok <;> try contradiction
  rename_i filled
  split at ok <;> try contradiction
  rename_i documents
  rw [bindOk] at ok
  obtain ⟨out,written,ok⟩ := ok
  cases ok
  obtain ⟨rs,rfl,rfl,all⟩ := rewriteAllOk filled reads written
  have some_ : rs.map Rewriting.text ≠ [] := by
    intro none
    rw [Reads,List.map_eq_nil_iff.mp none] at reads
    exact documents (List.map_eq_nil_iff.mp reads)
  have same : (rs.map (fun r => some r.text)).filterMap id = rs.map Rewriting.text := by
    rw [List.filterMap_map]
    exact List.filterMap_eq_map (f := Rewriting.text) ▸ rfl
  have plain : ∀ text ∈ rs.map Rewriting.text, Plain text := by
    rw [List.forall_mem_map]
    exact fun r mem => (all r mem).plain
  rw [same]
  exact ⟨rs,rfl,splitPlain some_ plain,rfl,all⟩

theorem withinNone {o : Object ν} (listed : IsClusterScopedKind o.kind = true) (ns : String) : o.within ns = o := if_pos listed

theorem readsAfter {ns : String} {rs : List (Rewriting ν)} (all : ∀ r ∈ rs, Rewritten yaml ns r) :
    Reads yaml (rs.map Rewriting.text) (rs.map Rewriting.after) := by
  rw [Reads,List.map_map,List.map_map]
  exact List.map_congr_left (fun r mem => (all r mem).again)

/- How an object is read again from a stream with a namespace. -/
structure Placed (ns : String) (o o' : Object ν) : Prop where
  apiVersion : o'.apiVersion = o.apiVersion
  kind : o'.kind = o.kind
  name : trimSpace o'.name = trimSpace o.name
  bare : IsClusterScopedKind o.kind = true → trimSpace o'.GetNamespace = trimSpace o.GetNamespace ∧ (o'.namespace_ = none ↔ o.namespace_ = none)
  placed : IsClusterScopedKind o.kind = false → o'.namespace_ = some (.text ns)

theorem placedWithin {ns : String} (filled : ns ≠ "") (o : Object ν) : Placed ns o (o.within ns) := by
  unfold Object.within
  cases listed : IsClusterScopedKind o.kind with
  | true =>
    rw [if_pos rfl]
    exact ⟨rfl,rfl,rfl,fun _ => ⟨rfl,Iff.rfl⟩,fun other => absurd (listed.symm.trans other) (by simp)⟩
  | false =>
    rw [if_neg Bool.false_ne_true]
    exact ⟨rfl,rfl,rfl,fun other => absurd (listed.symm.trans other) (by simp),fun _ => if_neg filled⟩

/- A namespace that ends in no line break is not touched. -/
theorem placedChomped {ns : String} {o p q : Object ν} (trimmed : trimSpace ns = ns) (here : Placed ns o p) (chomped : Chomped p q) : Placed ns o q := by
  refine ⟨chomped.apiVersion.trans here.apiVersion,chomped.kind.trans here.kind,chomped.name.trans here.name,?_,?_⟩
  · intro listed
    obtain ⟨own,none⟩ := here.bare listed
    rcases chomped.namespace_ with same | ⟨v,v',was,_,is_,trim⟩
    · unfold Object.GetNamespace at own ⊢
      rw [same]
      exact ⟨own,none⟩
    · unfold Object.GetNamespace at own ⊢
      rw [was] at own none
      rw [is_]
      refine ⟨trim.trans own,iff_of_false (by simp) ?_⟩
      exact fun other => absurd (none.mpr other) (by simp)
  · intro unlisted
    have text := here.placed unlisted
    rcases chomped.namespace_ with same | ⟨v,v',was,ends,_⟩
    · exact same.trans text
    · rw [text] at was
      cases was
      have solid := (trimSpaceSolid ns).2 '\n'
      rw [trimmed] at solid
      cases solid ends

theorem placedRewritten {ns : String} {r : Rewriting ν} (filled : ns ≠ "") (trimmed : trimSpace ns = ns) (rewritten : Rewritten yaml ns r) :
    Placed ns r.before r.after := by
  rcases rewritten.close with same | chomped
  · rw [same]
    exact placedWithin filled r.before
  · exact placedChomped trimmed (placedWithin filled r.before) chomped

/- What an accepted stream is: its objects are proper, the rewritten stream has the same in the namespace,
and there is a namespace where one was asked for or an object is of a kind that is not listed. -/
theorem acceptedStream {content targetNS rewritten ns : String} {analysis : ManifestAnalysis}
    (accepted : EnsureUniformNamespace yaml content targetNS = .ok (rewritten,ns,analysis)) :
    ∃ rows : List (Object ν × Object ν), Reads yaml (SplitYAMLDocuments content) (rows.map Prod.fst) ∧
      (∀ row ∈ rows, Proper row.1 ∧ Placed ns row.1 row.2) ∧
      Reads yaml (SplitYAMLDocuments rewritten) (rows.map Prod.snd) ∧ SplitYAMLDocuments content ≠ [] ∧
      trimSpace ns = ns ∧ (ns ≠ "" ↔ trimSpace targetNS ≠ "" ∨ ∃ row ∈ rows, IsClusterScopedKind row.1.kind = false) := by
  unfold EnsureUniformNamespace at accepted
  rw [bindOk] at accepted
  obtain ⟨first,analyzed,accepted⟩ := accepted
  obtain ⟨filled,os,reads,proper,scopes,shared⟩ := analyzeOk analyzed
  dsimp only at accepted
  generalize chosen : (if trimSpace targetNS ≠ "" then trimSpace targetNS else trimSpace first.namespace_) = given at accepted
  have trimmed : trimSpace given = given := by
    rw [← chosen]
    split <;> exact trimSpaceTwice _
  have blank : trimSpace "" = "" := by decide
  have reason : given ≠ "" → trimSpace targetNS ≠ "" ∨ ∃ o ∈ os, IsClusterScopedKind o.kind = false := by
    intro some_
    rcases shared with none | unlisted
    · rw [none,blank] at chosen
      split at chosen
      · rename_i asked
        exact .inl asked
      · exact absurd chosen.symm some_
    · exact .inr unlisted
  by_cases empty : given = ""
  · rw [if_pos empty] at accepted
    split at accepted
    · exact nomatch accepted
    · rename_i none
      obtain ⟨rfl,rest⟩ := Prod.mk.inj (Except.ok.inj accepted)
      obtain ⟨rfl,_⟩ := Prod.mk.inj rest
      have listed : ∀ o ∈ os, IsClusterScopedKind o.kind = true := by
        intro o mem
        have flag : IsClusterScopedKind o.kind ∈ first.resources.map ManifestRef.clusterScoped := by
          rw [scopes]
          exact List.mem_map_of_mem mem
        obtain ⟨ref,there,same⟩ := List.mem_map.mp flag
        cases scope : ref.clusterScoped with
        | true => rw [← same,scope]
        | false => exact absurd (List.any_eq_true.mpr ⟨ref,there,by rw [scope]; rfl⟩) none
      have kept : (os.map (fun o => (o,o))).map Prod.fst = os ∧ (os.map (fun o => (o,o))).map Prod.snd = os := by
        rw [List.map_map,List.map_map]
        exact ⟨List.map_id os,List.map_id os⟩
      refine ⟨os.map (fun o => (o,o)),?_,?_,?_,filled,blank,iff_of_false (fun other => other rfl) ?_⟩
      · rw [kept.1]
        exact reads
      · rw [List.forall_mem_map]
        intro o mem
        refine ⟨proper o mem,rfl,rfl,rfl,fun _ => ⟨rfl,Iff.rfl⟩,?_⟩
        exact fun unlisted => absurd ((listed o mem).symm.trans unlisted) (by simp)
      · rw [kept.2]
        exact reads
      · rintro (asked | ⟨row,mem,unlisted⟩)
        · rw [if_pos asked] at chosen
          exact asked (chosen.trans empty)
        · obtain ⟨o,there,rfl⟩ := List.mem_map.mp mem
          exact absurd ((listed o there).symm.trans unlisted) (by simp)
  · rw [if_neg empty,bindOk] at accepted
    obtain ⟨text,written,accepted⟩ := accepted
    rw [bindOk] at accepted
    obtain ⟨again,_,accepted⟩ := accepted
    obtain ⟨rfl,rest⟩ := Prod.mk.inj (Except.ok.inj accepted)
    obtain ⟨rfl,_⟩ := Prod.mk.inj rest
    obtain ⟨rs,rfl,texts,_,all⟩ := rewriteOk trimmed reads written
    have pairs : (rs.map (fun r => (r.before,r.after))).map Prod.fst = rs.map Rewriting.before ∧
        (rs.map (fun r => (r.before,r.after))).map Prod.snd = rs.map Rewriting.after := by
      rw [List.map_map,List.map_map]
      exact ⟨rfl,rfl⟩
    refine ⟨rs.map (fun r => (r.before,r.after)),?_,?_,?_,filled,trimmed,?_,fun _ => empty⟩
    · rwa [pairs.1]
    · rw [List.forall_mem_map]
      exact fun r mem => ⟨proper _ (List.mem_map_of_mem mem),placedRewritten empty trimmed (all r mem)⟩
    · rw [pairs.2,texts]
      exact readsAfter all
    · intro some_
      refine (reason some_).imp_right ?_
      rintro ⟨o,mem,unlisted⟩
      obtain ⟨r,there,rfl⟩ := List.mem_map.mp mem
      exact ⟨_,List.mem_map_of_mem there,unlisted⟩

end

section
variable {ν : Type} (yaml : Yaml ν) (cluster : Cluster ν)

/- Requests at the root, which are those to cluster-scoped resources, carry no namespace; all others are
made under this one, and one is made for each object of a namespaced resource. -/
def AppliedWithin (rewritten ns : String) (dryRun : Bool) : Prop :=
  ∃ requests summary, ApplyManifests yaml cluster rewritten ⟨ns,dryRun⟩ = .ok (requests,summary) ∧
    (∀ r ∈ requests, r.namespace_ = none → r.object.namespace_ = none) ∧
    (∀ r ∈ requests, ∀ n, r.namespace_ = some n → n = ns) ∧
    ∀ doc ∈ SplitYAMLDocuments rewritten, ∀ o mapping, yaml.Unmarshal doc = .ok (some o) → cluster.mapping o = .ok mapping →
      mapping.scope = .namespaced → ∃ r ∈ requests, r.namespace_ = some ns ∧ r.resource = mapping.resource ∧
        r.object.SetNamespace ns = (stripManagedFields o).SetNamespace ns

/- Cluster-scoped objects are of listed kinds and have no namespace, and where an object is namespaced there
is a namespace: it is asked for, or some kind is not listed. -/
def ScopesAgree (content targetNS : String) : Prop :=
  ∀ doc ∈ SplitYAMLDocuments content, ∀ o mapping, yaml.Unmarshal doc = .ok (some o) → cluster.mapping o = .ok mapping →
    (mapping.scope = .root → IsClusterScopedKind o.kind = true ∧ o.namespace_ = none) ∧
    (mapping.scope = .namespaced → trimSpace targetNS ≠ "" ∨ ∃ doc' ∈ SplitYAMLDocuments content, ∃ o',
      yaml.Unmarshal doc' = .ok (some o') ∧ IsClusterScopedKind o'.kind = false)

variable {yaml cluster}

theorem readsMem {docs : List String} {os : List (Object ν)} (reads : Reads yaml docs os) {o : Object ν} :
    (∃ doc ∈ docs, yaml.Unmarshal doc = .ok (some o)) ↔ o ∈ os := by
  rw [← List.mem_map,reads,List.mem_map]
  constructor
  · rintro ⟨p,mem,same⟩
    cases same
    exact mem
  · exact fun mem => ⟨o,mem,rfl⟩

theorem applySends {opts : ManifestApplyOptions} {doc : String} {i : Nat} {r : Request ν} :
    (applyDocument yaml cluster opts (doc,i)).1 = some r ↔
      ∃ o, yaml.Unmarshal doc = .ok (some o) ∧ requestOf cluster opts o = .ok r := by
  unfold applyDocument
  dsimp only
  cases yaml.Unmarshal doc with
  | error e => exact iff_of_false nofun (fun ⟨_,other,_⟩ => nomatch other)
  | ok found =>
    cases found with
    | none => exact iff_of_false nofun (fun ⟨_,other,_⟩ => nomatch other)
    | some o =>
      dsimp only
      cases made : requestOf cluster opts o with
      | error e =>
        refine iff_of_false nofun ?_
        rintro ⟨p,here,other⟩
        cases here
        rw [made] at other
        cases other
      | ok sent =>
        dsimp only
        constructor
        · intro same
          exact ⟨o,rfl,made.trans (congrArg Except.ok (Option.some_inj.mp same))⟩
        · rintro ⟨p,here,other⟩
          cases here
          rw [made] at other
          rw [Except.ok.inj other]

/- The requests of a stream are those of its objects. -/
theorem applyRequests {content : String} {os : List (Object ν)} {opts : ManifestApplyOptions}
    (reads : Reads yaml (SplitYAMLDocuments content) os) (some_ : os ≠ []) :
    ∃ requests summary, ApplyManifests yaml cluster content opts = .ok (requests,summary) ∧
      ∀ r, r ∈ requests ↔ ∃ o ∈ os, requestOf cluster opts o = .ok r := by
  have documents : SplitYAMLDocuments content ≠ [] := by
    intro none
    rw [Reads,none] at reads
    exact some_ (List.map_eq_nil_iff.mp reads.symm)
  unfold ApplyManifests
  dsimp only
  rw [if_neg documents]
  refine ⟨_,_,rfl,?_⟩
  intro r
  rw [List.mem_filterMap]
  constructor
  · rintro ⟨outcome,mem,sent⟩
    obtain ⟨⟨doc,i⟩,there,rfl⟩ := List.mem_map.mp mem
    obtain ⟨o,read,made⟩ := applySends.mp sent
    have listed := List.mem_map_of_mem (f := Prod.fst) there
    rw [List.zipIdx_map_fst] at listed
    exact ⟨o,(readsMem reads).mp ⟨doc,listed,read⟩,made⟩
  · rintro ⟨o,mem,made⟩
    obtain ⟨doc,there,read⟩ := (readsMem reads).mpr mem
    rw [← List.zipIdx_map_fst 0 (SplitYAMLDocuments content)] at there
    obtain ⟨⟨doc',i⟩,listed,rfl⟩ := List.mem_map.mp there
    exact ⟨_,List.mem_map_of_mem listed,applySends.mpr ⟨o,read,made⟩⟩

theorem stripNamespace (o : Object ν) : (stripManagedFields o).namespace_ = o.namespace_ := rfl

theorem mappingPlaced {ns : String} {o o' : Object ν} (here : Placed ns o o') : cluster.mapping o' = cluster.mapping o := by
  unfold Cluster.mapping
  rw [here.apiVersion,here.kind,here.name]

/- A cluster-scoped object is sent as it is. -/
theorem requestRoot {o : Object ν} {mapping : Mapping} (opts : ManifestApplyOptions) (known : cluster.mapping o = .ok mapping)
    (root : mapping.scope = .root) : requestOf cluster opts o = .ok ⟨mapping.resource,none,stripManagedFields o,opts.dryRun⟩ := by
  unfold requestOf
  rw [known]
  dsimp only [bind,Except.bind]
  rw [root]
  rfl

/- A namespaced object is sent under its own namespace or the default one, and not at all without one. -/
theorem requestNamespaced {o : Object ν} {mapping : Mapping} {opts : ManifestApplyOptions} {r : Request ν}
    (known : cluster.mapping o = .ok mapping) (scope : mapping.scope = .namespaced) : requestOf cluster opts o = .ok r ↔
      (trimSpace o.GetNamespace ≠ "" ∧ r = ⟨mapping.resource,some (trimSpace o.GetNamespace),stripManagedFields o,opts.dryRun⟩) ∨
      (trimSpace o.GetNamespace = "" ∧ trimSpace opts.defaultNamespace ≠ "" ∧ r = ⟨mapping.resource,some (trimSpace opts.defaultNamespace),
        (stripManagedFields o).SetNamespace (trimSpace opts.defaultNamespace),opts.dryRun⟩) := by
  have same : (stripManagedFields o).GetNamespace = o.GetNamespace := rfl
  unfold requestOf
  rw [known]
  dsimp only [bind,Except.bind]
  rw [scope,same]
  dsimp only
  by_cases own : trimSpace o.GetNamespace = ""
  · rw [if_neg (not_not.mpr own)]
    by_cases none : trimSpace opts.defaultNamespace = ""
    · rw [if_pos none]
      exact iff_of_false nofun (fun other => other.elim (fun made => made.1 own) (fun made => made.2.1 none))
    · rw [if_neg none]
      constructor
      · exact fun made => .inr ⟨own,none,(Except.ok.inj made).symm⟩
      · rintro (made | made)
        · exact absurd own made.1
        · rw [made.2.2]
          rfl
  · rw [if_pos own]
    constructor
    · exact fun made => .inl ⟨own,(Except.ok.inj made).symm⟩
    · rintro (made | made)
      · rw [made.2]
        rfl
      · exact absurd made.1 own

/- In a stream with a namespace, an object is sent under it. -/
theorem requestPlaced {o o' : Object ν} {mapping : Mapping} {ns : String} {dryRun : Bool} {r : Request ν} (proper : Proper o)
    (here : Placed ns o o') (trimmed : trimSpace ns = ns) (given : IsClusterScopedKind o.kind = false → ns ≠ "")
    (known : cluster.mapping o' = .ok mapping) (scope : mapping.scope = .namespaced) : requestOf cluster ⟨ns,dryRun⟩ o' = .ok r ↔
      ns ≠ "" ∧ r = ⟨mapping.resource,some ns,(stripManagedFields o').SetNamespace ns,dryRun⟩ := by
  rw [requestNamespaced known scope,trimmed]
  cases listed : IsClusterScopedKind o.kind with
  | true =>
    have own : trimSpace o'.GetNamespace = "" := (here.bare listed).1.trans (proper.alone listed)
    rw [own]
    simp
  | false =>
    have filled := given listed
    have text := here.placed listed
    have own : trimSpace o'.GetNamespace = ns := by
      rw [Object.GetNamespace,text]
      exact trimmed
    have kept : (stripManagedFields o').SetNamespace ns = stripManagedFields o' := by
      unfold stripManagedFields Object.SetNamespace
      rw [text,if_neg filled]
    rw [own,kept]
    simp [filled]

/- Requests are made for kinds that the cluster knows. -/
theorem requestKnown {opts : ManifestApplyOptions} {o : Object ν} {r : Request ν} (made : requestOf cluster opts o = .ok r) :
    ∃ mapping, cluster.mapping o = .ok mapping := by
  cases known : cluster.mapping o with
  | error e =>
    rw [requestOf,known] at made
    cases made
  | ok mapping => exact ⟨mapping,rfl⟩

theorem scopesAgree {content targetNS rewritten ns : String} {analysis : ManifestAnalysis} (dryRun : Bool)
    (accepted : EnsureUniformNamespace yaml content targetNS = .ok (rewritten,ns,analysis)) :
    AppliedWithin yaml cluster rewritten ns dryRun ↔ ScopesAgree yaml cluster content targetNS := by
  obtain ⟨rows,reads,all,within,filled,trimmed,given⟩ := acceptedStream accepted
  have some_ : rows.map Prod.snd ≠ [] := by
    intro none
    rw [Reads,List.map_eq_nil_iff.mp none] at reads
    exact filled (List.map_eq_nil_iff.mp reads)
  obtain ⟨requests,summary,applied,sent⟩ : ∃ requests summary,
      ApplyManifests yaml cluster rewritten ⟨ns,dryRun⟩ = .ok (requests,summary) ∧
      ∀ r, r ∈ requests ↔ ∃ o ∈ rows.map Prod.snd, requestOf cluster ⟨ns,dryRun⟩ o = .ok r := applyRequests within some_
  have placed : ∀ row ∈ rows, IsClusterScopedKind row.1.kind = false → ns ≠ "" := fun row mem unlisted => given.mpr (.inr ⟨row,mem,unlisted⟩)
  have asked : (trimSpace targetNS ≠ "" ∨ ∃ doc ∈ SplitYAMLDocuments content, ∃ o, yaml.Unmarshal doc = .ok (some o) ∧
      IsClusterScopedKind o.kind = false) ↔ ns ≠ "" := by
    rw [given]
    refine or_congr_right ⟨?_,?_⟩
    · rintro ⟨doc,mem,o,read,unlisted⟩
      obtain ⟨row,there,rfl⟩ := List.mem_map.mp ((readsMem reads).mp ⟨doc,mem,read⟩)
      exact ⟨row,there,unlisted⟩
    · rintro ⟨row,mem,unlisted⟩
      obtain ⟨doc,there,read⟩ := (readsMem reads).mpr (List.mem_map_of_mem mem)
      exact ⟨doc,there,row.1,read,unlisted⟩
  -- A request under a namespace is one of a namespaced object, and the namespace is this one.
  have under : ∀ r ∈ requests, ∀ n, r.namespace_ = some n → ns ≠ "" ∧ n = ns := by
    intro r mem n named
    obtain ⟨p,there,made⟩ := (sent r).mp mem
    obtain ⟨row,listed,rfl⟩ := List.mem_map.mp there
    obtain ⟨proper,here⟩ := all row listed
    obtain ⟨mapping,known⟩ := requestKnown made
    cases scope : mapping.scope with
    | root =>
      rw [requestRoot _ known scope] at made
      rw [← Except.ok.inj made] at named
      cases named
    | namespaced =>
      obtain ⟨some_,rfl⟩ := (requestPlaced proper here trimmed (placed row listed) known scope).mp made
      exact ⟨some_,(Option.some_inj.mp named).symm⟩
  constructor
  · rintro ⟨requests',summary',applied',bare,_,every⟩ doc mem o mapping read known
    obtain ⟨rfl,_⟩ := Prod.mk.inj (Except.ok.inj (applied.symm.trans applied'))
    obtain ⟨row,listed,rfl⟩ := List.mem_map.mp ((readsMem reads).mp ⟨doc,mem,read⟩)
    obtain ⟨proper,here⟩ := all row listed
    have known' : cluster.mapping row.2 = .ok mapping := (mappingPlaced here).trans known
    refine ⟨?_,?_⟩
    · intro root
      have made : (⟨mapping.resource,none,stripManagedFields row.2,dryRun⟩ : Request ν) ∈ requests :=
        (sent _).mpr ⟨row.2,List.mem_map_of_mem listed,requestRoot _ known' root⟩
      have clear := bare _ made rfl
      rw [stripNamespace] at clear
      cases kind : IsClusterScopedKind row.1.kind with
      | true => exact ⟨rfl,(here.bare kind).2.mp clear⟩
      | false =>
        rw [here.placed kind] at clear
        cases clear
    · intro scope
      obtain ⟨doc',there,again⟩ := (readsMem within).mpr (List.mem_map_of_mem listed)
      obtain ⟨r,made,named,_⟩ := every doc' there _ mapping again known' scope
      exact asked.mpr (under r made ns named).1
  · intro agree
    refine ⟨requests,summary,applied,?_,fun r mem n named => (under r mem n named).2,?_⟩
    · intro r mem root
      obtain ⟨p,there,made⟩ := (sent r).mp mem
      obtain ⟨row,listed,rfl⟩ := List.mem_map.mp there
      obtain ⟨proper,here⟩ := all row listed
      obtain ⟨mapping,known⟩ := requestKnown made
      have known' := (mappingPlaced here).symm.trans known
      obtain ⟨doc,inside,read⟩ := (readsMem reads).mpr (List.mem_map_of_mem listed)
      cases scope : mapping.scope with
      | root =>
        obtain ⟨kind,clear⟩ := (agree doc inside row.1 mapping read known').1 scope
        rw [requestRoot _ known scope] at made
        rw [← Except.ok.inj made]
        exact (here.bare kind).2.mpr clear
      | namespaced =>
        obtain ⟨_,rfl⟩ := (requestPlaced proper here trimmed (placed row listed) known scope).mp made
        cases root
    · intro doc mem p mapping read known scope
      obtain ⟨row,listed,rfl⟩ := List.mem_map.mp ((readsMem within).mp ⟨doc,mem,read⟩)
      obtain ⟨proper,here⟩ := all row listed
      have known' := (mappingPlaced here).symm.trans known
      obtain ⟨doc',inside,first⟩ := (readsMem reads).mpr (List.mem_map_of_mem listed)
      have some_ := asked.mp ((agree doc' inside row.1 mapping first known').2 scope)
      have made : requestOf cluster ⟨ns,dryRun⟩ row.2 =
          .ok ⟨mapping.resource,some ns,(stripManagedFields row.2).SetNamespace ns,dryRun⟩ :=
        (requestPlaced proper here trimmed (placed row listed) known scope).mpr ⟨some_,rfl⟩
      refine ⟨_,(sent _).mpr ⟨_,List.mem_map_of_mem listed,made⟩,rfl,rfl,?_⟩
      simp [Object.SetNamespace,some_]

end

/-! A zone of the whole cluster, of a kind that only discovery knows. -/

def zone : Object String := ⟨"dns.io/v1","Zone","z",none,[],[]⟩

def zoneText : String := "apiVersion: dns.io/v1\nkind: Zone\nmetadata:\n  name: z"

def placedText : String := "apiVersion: dns.io/v1\nkind: Zone\nmetadata:\n  name: z\n  namespace: team"

def zoneMarshal (o : Object String) : Except String String :=
  if o = zone then .ok (zoneText ++ "\n")
  else if o = zone.SetNamespace "team" then .ok (placedText ++ "\n")
  else .error "unsupported"

def zoneUnmarshal (doc : String) : Except String (Option (Object String)) :=
  if trimSpace doc = zoneText then .ok (some zone)
  else if trimSpace doc = placedText then .ok (some (zone.SetNamespace "team"))
  else .error "unsupported"

theorem zonePlain : Plain zoneText := by
  unfold zoneText
  exact plainChars (by decide) (by decide) (by decide) (by decide) (by decide)

set_option maxRecDepth 4000 in
theorem placedPlain : Plain placedText := by
  unfold placedText
  exact plainChars (by decide) (by decide) (by decide) (by decide) (by decide)

theorem placedOther : placedText ≠ zoneText := by
  unfold placedText zoneText
  exact fun same => absurd (String.ofList_injective same) (by decide)

theorem zoneWritten {o : Object String} {text : String} (written : zoneMarshal o = .ok text) :
    o = zone ∧ trimSpace text = zoneText ∨ o = zone.SetNamespace "team" ∧ trimSpace text = placedText := by
  unfold zoneMarshal at written
  split at written
  · rename_i same
    rw [← Except.ok.inj written]
    exact .inl ⟨same,trimNewline zonePlain⟩
  · split at written
    · rename_i same
      rw [← Except.ok.inj written]
      exact .inr ⟨same,trimNewline placedPlain⟩
    · cases written

theorem zoneBack {o : Object String} {text : String} (written : zoneMarshal o = .ok text) : zoneUnmarshal text = .ok (some o) := by
  unfold zoneUnmarshal
  rcases zoneWritten written with ⟨rfl,same⟩ | ⟨rfl,same⟩
  · rw [same,if_pos rfl]
  · rw [same,if_neg placedOther,if_pos rfl]

theorem zonePlains {o : Object String} {text : String} (written : zoneMarshal o = .ok text) : Plain (trimSpace text) := by
  rcases zoneWritten written with ⟨_,same⟩ | ⟨_,same⟩
  · rw [same]
    exact zonePlain
  · rw [same]
    exact placedPlain

theorem zoneTrims (text : String) : zoneUnmarshal (trimSpace text) = zoneUnmarshal text := by
  unfold zoneUnmarshal
  rw [trimSpaceTwice]

/- None of its texts ends in a literal block scalar. -/
def zoneYaml : Yaml String where
  Unmarshal := zoneUnmarshal
  Marshal := zoneMarshal
  block := fun _ => false
  plain := zonePlains
  back := fun _ written => zoneBack written
  backWithin := fun _ _ written => zoneBack written
  trims := fun _ _ => zoneTrims _
  chomps := fun _ other => absurd other Bool.false_ne_true

def zoneCluster : Cluster String where
  ParseGroupVersion apiVersion := if apiVersion = "dns.io/v1" then some ("dns.io","v1") else none
  RESTMapping gv kind :=
    if gv = ("dns.io","v1") ∧ kind = "Zone" then .ok ⟨"zones",.root⟩ else .error "no matches"
  has _ := false
  Apply r := .ok r.object

def zoneAnalysis : ManifestAnalysis := ⟨"team",[⟨"dns.io/v1","Zone","z","team",false⟩]⟩

theorem zoneReads : zoneYaml.Unmarshal = zoneUnmarshal := by unfold zoneYaml; dsimp only

theorem zoneWrites : zoneYaml.Marshal = zoneMarshal := by unfold zoneYaml; dsimp only

theorem zoneRead : zoneYaml.Unmarshal zoneText = .ok (some zone) := by
  rw [zoneReads,zoneUnmarshal,zonePlain.trimmed,if_pos rfl]

theorem placedRead : zoneYaml.Unmarshal placedText = .ok (some (zone.SetNamespace "team")) := by
  rw [zoneReads,zoneUnmarshal,placedPlain.trimmed,if_neg placedOther,if_pos rfl]

theorem zoneWithin : zone.within "team" = zone.SetNamespace "team" := by decide

theorem zoneAccepted : EnsureUniformNamespace zoneYaml zoneText "team" = .ok (placedText,"team",zoneAnalysis) := by
  have before : analyzeDocument zoneYaml none zoneText 0 = .ok (none,⟨"dns.io/v1","Zone","z","",false⟩) := by
    rw [analyzeDocument,zoneRead]
    decide
  have after : analyzeDocument zoneYaml none placedText 0 = .ok (some "team",⟨"dns.io/v1","Zone","z","team",false⟩) := by
    rw [analyzeDocument,placedRead]
    decide
  have written : zoneYaml.Marshal (zone.within "team") = .ok (placedText ++ "\n") := by
    rw [zoneWithin,zoneWrites,zoneMarshal,if_neg (by decide),if_pos rfl]
  exact acceptedSingle zonePlain placedPlain (by decide) (by decide) zoneRead written (trimNewline placedPlain) before after

theorem scopesAgreeZone : AppliedWithin zoneYaml zoneCluster placedText "team" false ↔
    ScopesAgree zoneYaml zoneCluster zoneText "team" := scopesAgree false zoneAccepted

/- It is sent to the root with a namespace in it. -/
theorem zoneCarries : EnsureUniformNamespace zoneYaml zoneText "team" = .ok (placedText,"team",zoneAnalysis) ∧
    ¬AppliedWithin zoneYaml zoneCluster placedText "team" false := by
  refine ⟨zoneAccepted,?_⟩
  rintro ⟨requests,summary,applied,bare,_⟩
  have sent : (ApplyManifests zoneYaml zoneCluster placedText ⟨"team",false⟩).toOption.map Prod.fst =
      some [⟨"zones",none,zone.SetNamespace "team",false⟩] := by
    have made : requestOf zoneCluster ⟨"team",false⟩ (zone.SetNamespace "team") = .ok ⟨"zones",none,zone.SetNamespace "team",false⟩ := by
      decide
    have one : (applyDocument zoneYaml zoneCluster ⟨"team",false⟩ (placedText,0)).1 = some ⟨"zones",none,zone.SetNamespace "team",false⟩ := by
      rw [applyDocument,placedRead]
      dsimp only
      rw [made]
    unfold ApplyManifests
    rw [singlePlain placedPlain]
    dsimp only [List.zipIdx_cons,List.zipIdx_nil]
    rw [if_neg (List.cons_ne_nil _ _),List.map_singleton,List.filterMap_cons_some one,List.filterMap_nil]
    dsimp only [Except.toOption,Option.map_some]
  rw [applied] at sent
  have same : requests = [⟨"zones",none,zone.SetNamespace "team",false⟩] := Option.some_inj.mp sent
  rw [same] at bare
  have clear := bare _ List.mem_cons_self rfl
  revert clear
  decide

end ContainerWS.Kubernetes
