import ContainerWS.Kubernetes.ManifestScopes

/-! Which streams lose nothing but a namespace when they are rewritten. The text of an object is trimmed
before it goes into the stream. -/
namespace ContainerWS.Kubernetes
open Fallible GoStrings TextRows

section
variable {ν : Type} (yaml : Yaml ν)

/- The namespace that is asked for, or the one that the stream has. -/
def chosenNamespace (content targetNS : String) : String :=
  if trimSpace targetNS ≠ "" then trimSpace targetNS
  else match AnalyzeManifests yaml content with
  | .ok analysis => trimSpace analysis.namespace_
  | .error _ => ""

/- As many documents, and each is read as the object that was there, in the namespace. -/
def KeepsDocuments (content rewritten ns : String) : Prop :=
  (SplitYAMLDocuments rewritten).length = (SplitYAMLDocuments content).length ∧
    ∀ (i : Nat) (doc doc' : String), (SplitYAMLDocuments content)[i]? = some doc → (SplitYAMLDocuments rewritten)[i]? = some doc' →
      ∃ o, yaml.Unmarshal doc = .ok (some o) ∧ yaml.Unmarshal doc' = .ok (some (o.within ns))

/- No object of the stream is written, in the namespace, as a text that ends in a literal block scalar. -/
def EndsPlain (content ns : String) : Prop :=
  ∀ doc ∈ SplitYAMLDocuments content, ∀ o, yaml.Unmarshal doc = .ok (some o) → yaml.block (o.within ns) = false

variable {yaml}

theorem withinTwice (o : Object ν) (ns : String) : (o.within ns).within ns = o.within ns := by
  cases listed : IsClusterScopedKind o.kind with
  | true => rw [withinNone listed,withinNone listed]
  | false =>
    have placed : o.within ns = o.SetNamespace ns := if_neg (listed ▸ Bool.false_ne_true)
    rw [placed]
    exact if_neg (listed ▸ Bool.false_ne_true)

/- What an accepted stream with a namespace went through. -/
structure Accepted (yaml : Yaml ν) (content targetNS rewritten ns : String) (analysis : ManifestAnalysis) : Prop where
  chosen : ns = chosenNamespace yaml content targetNS
  trimmed : trimSpace ns = ns
  reads : ∃ os, Reads yaml (SplitYAMLDocuments content) os
  written : RewriteManifestNamespace yaml content ns = .ok rewritten
  again : ∃ later, AnalyzeManifests yaml rewritten = .ok later ∧
    analysis = ⟨ns,later.resources.map (fun r => if r.clusterScoped then r else { r with namespace_ := ns })⟩

theorem acceptedMade {content targetNS rewritten ns : String} {analysis : ManifestAnalysis} (filled : ns ≠ "")
    (accepted : EnsureUniformNamespace yaml content targetNS = .ok (rewritten,ns,analysis)) :
    Accepted yaml content targetNS rewritten ns analysis := by
  unfold EnsureUniformNamespace at accepted
  rw [bindOk] at accepted
  obtain ⟨first,analyzed,accepted⟩ := accepted
  obtain ⟨_,os,reads,_⟩ := analyzeOk analyzed
  dsimp only at accepted
  have same : (if trimSpace targetNS ≠ "" then trimSpace targetNS else trimSpace first.namespace_) = chosenNamespace yaml content targetNS := by
    rw [chosenNamespace,analyzed]
  have trimmed : trimSpace (chosenNamespace yaml content targetNS) = chosenNamespace yaml content targetNS := by
    rw [← same]
    split <;> exact trimSpaceTwice _
  rw [same] at accepted
  by_cases empty : chosenNamespace yaml content targetNS = ""
  · rw [if_pos empty] at accepted
    split at accepted
    · exact nomatch accepted
    · obtain ⟨_,rest⟩ := Prod.mk.inj (Except.ok.inj accepted)
      exact absurd (Prod.mk.inj rest).1.symm filled
  · rw [if_neg empty,bindOk] at accepted
    obtain ⟨text,written,accepted⟩ := accepted
    rw [bindOk] at accepted
    obtain ⟨later,again,accepted⟩ := accepted
    obtain ⟨rfl,rest⟩ := Prod.mk.inj (Except.ok.inj accepted)
    obtain ⟨rfl,rfl⟩ := Prod.mk.inj rest
    exact ⟨rfl,trimmed,⟨os,reads⟩,written,later,again,rfl⟩

/- The stream of a rewriting, written once more. -/
theorem rewriteAgain {ns : String} {rs : List (Rewriting ν)} (all : ∀ r ∈ rs, Rewritten yaml ns r ∧ r.after = r.before.within ns) (i : Nat) :
    ((rs.map Rewriting.text).zipIdx i).mapM (rewriteDocument yaml ns) = .ok (rs.map (fun r => some r.text)) := by
  induction rs generalizing i with
  | nil => rfl
  | cons r rest ih =>
    obtain ⟨⟨rewritten,same⟩,later⟩ := List.forall_mem_cons.mp all
    obtain ⟨text,made,trimmed⟩ := rewritten.made
    have here : rewriteDocument yaml ns (r.text,i) = .ok (some r.text) := by
      unfold rewriteDocument
      dsimp only
      rw [rewritten.again,same]
      dsimp only
      rw [withinTwice,made,trimmed]
    rw [List.map_cons,List.zipIdx_cons,List.mapM_cons,here,ih later]
    rfl

theorem readsAt {docs : List String} {os : List (Object ν)} (reads : Reads yaml docs os) {i : Nat} {doc : String} (there : docs[i]? = some doc) :
    ∃ o, os[i]? = some o ∧ yaml.Unmarshal doc = .ok (some o) := by
  have here := congrArg (fun l => l[i]?) reads
  rw [List.getElem?_map,List.getElem?_map,there] at here
  obtain ⟨o,found,same⟩ := Option.map_eq_some_iff.mp here.symm
  exact ⟨o,found,same.symm⟩

/- A rewritten stream has the objects that were there, and rewriting it changes nothing more, exactly when no
text of an object ends in a literal block scalar. -/
theorem rewriteKeeps {content targetNS rewritten ns : String} {analysis : ManifestAnalysis}
    (accepted : EnsureUniformNamespace yaml content targetNS = .ok (rewritten,ns,analysis)) (filled : ns ≠ "") :
    (KeepsDocuments yaml content rewritten ns ∧ EnsureUniformNamespace yaml rewritten ns = .ok (rewritten,ns,analysis)) ↔
      EndsPlain yaml content (chosenNamespace yaml content targetNS) := by
  obtain ⟨chosen,trimmed,⟨os,reads⟩,written,later,again,rfl⟩ := acceptedMade filled accepted
  obtain ⟨rs,rfl,texts,joined,all⟩ := rewriteOk trimmed reads written
  have lengths : (SplitYAMLDocuments content).length = rs.length := by
    have same := congrArg List.length reads
    rwa [List.length_map,List.length_map,List.length_map] at same
  have documents : rs.map Rewriting.text ≠ [] := by
    intro none
    rw [AnalyzeManifests,texts,if_pos none] at again
    cases again
  rw [← chosen]
  constructor
  · rintro ⟨⟨_,keeps⟩,_⟩ doc mem o read
    obtain ⟨i,there⟩ := List.mem_iff_getElem?.mp mem
    obtain ⟨_,found,here⟩ := readsAt reads there
    rw [List.getElem?_map,Option.map_eq_some_iff] at found
    obtain ⟨r,found,rfl⟩ := found
    cases Option.some.inj (Except.ok.inj (here.symm.trans read))
    have rewritten := all r (List.mem_of_getElem? found)
    obtain ⟨o,first,second⟩ := keeps i doc r.text there (by rw [texts,List.getElem?_map,found]; rfl)
    cases Option.some.inj (Except.ok.inj (here.symm.trans first))
    exact rewritten.same.mp (Option.some.inj (Except.ok.inj (rewritten.again.symm.trans second)))
  · intro plain
    have same : ∀ r ∈ rs, r.after = r.before.within ns := by
      intro r mem
      obtain ⟨doc,there,read⟩ := (readsMem reads).mpr (List.mem_map_of_mem mem)
      exact (all r mem).same.mpr (plain doc there r.before read)
    refine ⟨⟨?_,?_⟩,?_⟩
    · rw [texts,List.length_map,lengths]
    · intro i doc doc' there there'
      obtain ⟨_,found,read⟩ := readsAt reads there
      rw [List.getElem?_map,Option.map_eq_some_iff] at found
      obtain ⟨r,found,rfl⟩ := found
      rw [texts,List.getElem?_map,found] at there'
      cases Option.some.inj there'
      have mem := List.mem_of_getElem? found
      refine ⟨r.before,read,?_⟩
      rw [(all r mem).again,same r mem]
    · have once : RewriteManifestNamespace yaml rewritten ns = .ok rewritten := by
        unfold RewriteManifestNamespace
        dsimp only
        rw [trimmed,if_neg filled,texts,if_neg documents,rewriteAgain (fun r mem => ⟨all r mem,same r mem⟩),joined]
        have kept : (rs.map (fun r => some r.text)).filterMap id = rs.map Rewriting.text := by
          simp [List.filterMap_map]
        show Except.ok (joinDocuments ((rs.map (fun r => some r.text)).filterMap id)) = _
        rw [kept]
      unfold EnsureUniformNamespace
      rw [again]
      dsimp only [bind,Except.bind]
      rw [trimmed,if_pos filled,if_neg filled,once]
      dsimp only
      rw [again]
      rfl

end

/- A zone has no text that ends in a literal block scalar. -/
theorem rewriteKeepsZone : (KeepsDocuments zoneYaml zoneText placedText "team" ∧
      EnsureUniformNamespace zoneYaml placedText "team" = .ok (placedText,"team",zoneAnalysis)) ↔
    EndsPlain zoneYaml zoneText (chosenNamespace zoneYaml zoneText "team") :=
  rewriteKeeps zoneAccepted (by decide)

/-! A secret whose note ends in a line break. Its text has the metadata last; the text that is written for it
has the note last. -/

def letter (note : String) : Object String := ⟨"v1","Secret","s",none,[],[("stringData",note)]⟩

def letterText : String := "apiVersion: v1\nkind: Secret\nstringData:\n  note: |\n    hello\nmetadata:\n  name: s"

def blockText : String := "apiVersion: v1\nkind: Secret\nmetadata:\n  name: s\n  namespace: team\nstringData:\n  note: |\n    hello"

def flowText : String := "apiVersion: v1\nkind: Secret\nmetadata:\n  name: s\n  namespace: team\nstringData:\n  note: hello"

def open_ : Object String := (letter "hello\n").SetNamespace "team"

def shut : Object String := (letter "hello").SetNamespace "team"

def letterMarshal (o : Object String) : Except String String :=
  if o = open_ then .ok (blockText ++ "\n")
  else if o = shut then .ok (flowText ++ "\n")
  else .error "unsupported"

def letterUnmarshal (doc : String) : Except String (Option (Object String)) :=
  if doc = letterText then .ok (some (letter "hello\n"))
  else if doc = blockText ++ "\n" then .ok (some open_)
  else if doc = blockText ∨ trimSpace doc = flowText then .ok (some shut)
  else .error "unsupported"

set_option maxRecDepth 4000 in
theorem blockPlain : Plain blockText := by
  unfold blockText
  exact plainChars (by decide) (by decide) (by decide) (by decide) (by decide)

set_option maxRecDepth 4000 in
theorem flowPlain : Plain flowText := by
  unfold flowText
  exact plainChars (by decide) (by decide) (by decide) (by decide) (by decide)

set_option maxRecDepth 4000 in
theorem letterTextPlain : Plain letterText := by
  unfold letterText
  exact plainChars (by decide) (by decide) (by decide) (by decide) (by decide)

theorem blockTrimmed : trimSpace (blockText ++ "\n") = blockText := trimNewline blockPlain

theorem flowTrimmed : trimSpace (flowText ++ "\n") = flowText := trimNewline flowPlain

/- The texts differ in their lengths. -/
theorem lengthOther {s t : String} {m n : Nat} (left : s.toList.length = m) (right : t.toList.length = n) (other : m ≠ n) : s ≠ t := by
  rintro rfl
  exact other (left.symm.trans right)

theorem letterLength : letterText.toList.length = 79 := by
  unfold letterText
  rw [String.toList_ofList]
  decide

theorem blockLength : blockText.toList.length = 97 := by
  unfold blockText
  rw [String.toList_ofList]
  decide

theorem flowLength : flowText.toList.length = 91 := by
  unfold flowText
  rw [String.toList_ofList]
  decide

theorem lineLength {s : String} {n : Nat} (length : s.toList.length = n) : (s ++ "\n").toList.length = n + 1 := by
  rw [String.toList_append,List.length_append,length]
  rfl

theorem letterWritten {o : Object String} {text : String} (written : letterMarshal o = .ok text) :
    o = open_ ∧ text = blockText ++ "\n" ∨ o = shut ∧ text = flowText ++ "\n" := by
  unfold letterMarshal at written
  split at written
  · rename_i same
    exact .inl ⟨same,(Except.ok.inj written).symm⟩
  · split at written
    · rename_i same
      exact .inr ⟨same,(Except.ok.inj written).symm⟩
    · cases written

theorem letterReads {o : Object String} {text : String} (written : letterMarshal o = .ok text) :
    letterUnmarshal text = .ok (some o) ∧ letterUnmarshal (trimSpace text) = .ok (some shut) := by
  have blockOther : blockText ≠ letterText := lengthOther blockLength letterLength (by decide)
  have flowOther : flowText ≠ letterText := lengthOther flowLength letterLength (by decide)
  have blockLine : blockText ≠ blockText ++ "\n" := lengthOther blockLength (lineLength blockLength) (by decide)
  have flowLine : flowText ≠ blockText ++ "\n" := lengthOther flowLength (lineLength blockLength) (by decide)
  rcases letterWritten written with ⟨rfl,rfl⟩ | ⟨rfl,rfl⟩
  · have lineOther : blockText ++ "\n" ≠ letterText := lengthOther (lineLength blockLength) letterLength (by decide)
    rw [blockTrimmed]
    unfold letterUnmarshal
    exact ⟨by rw [if_neg lineOther,if_pos rfl],by rw [if_neg blockOther,if_neg blockLine,if_pos (.inl rfl)]⟩
  · have lineOther : flowText ++ "\n" ≠ letterText := lengthOther (lineLength flowLength) letterLength (by decide)
    have lineBlock : flowText ++ "\n" ≠ blockText ++ "\n" := lengthOther (lineLength flowLength) (lineLength blockLength) (by decide)
    rw [flowTrimmed]
    unfold letterUnmarshal
    exact ⟨by rw [if_neg lineOther,if_neg lineBlock,if_pos (.inr flowTrimmed)],
      by rw [if_neg flowOther,if_neg flowLine,if_pos (.inr flowPlain.trimmed)]⟩

theorem letterPlain {o : Object String} {text : String} (written : letterMarshal o = .ok text) : Plain (trimSpace text) := by
  rcases letterWritten written with ⟨_,rfl⟩ | ⟨_,rfl⟩
  · rw [blockTrimmed]
    exact blockPlain
  · rw [flowTrimmed]
    exact flowPlain

theorem letterTrims {o : Object String} {text : String} (written : letterMarshal o = .ok text) (plain : decide (o = open_) = false) :
    letterUnmarshal (trimSpace text) = letterUnmarshal text := by
  obtain ⟨whole,short⟩ := letterReads written
  rcases letterWritten written with ⟨rfl,_⟩ | ⟨rfl,_⟩
  · cases plain
  · rw [whole,short]

theorem letterChomps {o : Object String} {text : String} (written : letterMarshal o = .ok text) (block : decide (o = open_) = true) :
    ∃ o', letterUnmarshal (trimSpace text) = .ok (some o') ∧ Chomped o o' ∧ o' ≠ o := by
  cases of_decide_eq_true block
  exact ⟨shut,(letterReads written).2,⟨rfl,rfl,rfl,.inl rfl⟩,by decide⟩

def letterYaml : Yaml String where
  Unmarshal := letterUnmarshal
  Marshal := letterMarshal
  block := fun o => decide (o = open_)
  plain := letterPlain
  back := fun _ written => (letterReads written).1
  backWithin := fun _ _ written => (letterReads written).1
  trims := letterTrims
  chomps := fun written block _ => letterChomps written block

def letterAnalysis : ManifestAnalysis := ⟨"team",[⟨"v1","Secret","s","team",false⟩]⟩

theorem letterUnmarshals : letterYaml.Unmarshal = letterUnmarshal := by unfold letterYaml; dsimp only

theorem letterMarshals : letterYaml.Marshal = letterMarshal := by unfold letterYaml; dsimp only

theorem letterRead : letterYaml.Unmarshal letterText = .ok (some (letter "hello\n")) := by
  rw [letterUnmarshals,letterUnmarshal,if_pos rfl]

theorem blockWritten : letterYaml.Marshal open_ = .ok (blockText ++ "\n") := by
  rw [letterMarshals,letterMarshal,if_pos rfl]

theorem blockRead : letterYaml.Unmarshal blockText = .ok (some shut) := by
  have written : letterMarshal open_ = .ok (blockText ++ "\n") := by rw [letterMarshal,if_pos rfl]
  have read := (letterReads written).2
  rwa [blockTrimmed,← letterUnmarshals] at read

theorem letterWithin : (letter "hello\n").within "team" = open_ := by decide

theorem letterAccepted : EnsureUniformNamespace letterYaml letterText "team" = .ok (blockText,"team",letterAnalysis) := by
  have before : analyzeDocument letterYaml none letterText 0 = .ok (none,⟨"v1","Secret","s","",false⟩) := by
    rw [analyzeDocument,letterRead]
    decide
  have after : analyzeDocument letterYaml none blockText 0 = .ok (some "team",⟨"v1","Secret","s","team",false⟩) := by
    rw [analyzeDocument,blockRead]
    decide
  have written : letterYaml.Marshal ((letter "hello\n").within "team") = .ok (blockText ++ "\n") := by
    rw [letterWithin,blockWritten]
  exact acceptedSingle letterTextPlain blockPlain (by decide) (by decide) letterRead written blockTrimmed before after

/- The note of the secret loses its line break. -/
theorem noteCut : ¬∀ (yaml : Yaml String) (content targetNS rewritten ns : String) (analysis : ManifestAnalysis),
    EnsureUniformNamespace yaml content targetNS = .ok (rewritten,ns,analysis) → ns ≠ "" →
      KeepsDocuments yaml content rewritten ns ∧ EnsureUniformNamespace yaml rewritten ns = .ok (rewritten,ns,analysis) := by
  intro keeps
  obtain ⟨⟨_,same⟩,_⟩ := keeps letterYaml letterText "team" blockText "team" letterAnalysis letterAccepted (by decide)
  obtain ⟨o,read,again⟩ := same 0 letterText blockText (by rw [singlePlain letterTextPlain]; rfl) (by rw [singlePlain blockPlain]; rfl)
  cases Option.some.inj (Except.ok.inj (letterRead.symm.trans read))
  have cut := Option.some.inj (Except.ok.inj (blockRead.symm.trans again))
  revert cut
  decide

end ContainerWS.Kubernetes
