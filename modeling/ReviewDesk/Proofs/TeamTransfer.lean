import ReviewDesk.Proofs.JsonText
import ReviewDesk.Proofs.Lengths
import ReviewDesk.Proofs.Listings
import ReviewDesk.Proofs.QueryText

/-!
# Moving a team to another service

A team that a service shows can be posted to a new service as it is shown, and is then shown
there just the same.  The way has four parts.  The name gets through the query, however it is
spelled.  The text of the team is read as the form of a new team, whatever characters its
names and ids have, since writing and reading are inverse.  What was stored keeps the length
rules, so the new service takes it.  And a team made of distinct members who are listed by
their ids has them in the same order.

* `read_toJson` — the text of a team is read as the team;
* `team_withTeam` — a new store shows the team as it was shown;
* `teams_can_be_moved` — from request to request.
-/

namespace ReviewDesk

open Http Json

/-! ## The text of a team -/

namespace Member

/-- What the text of a member is read as. -/
def draft (m : Member) : Draft :=
  .record [(some "user_id", .text (some m.userId)), (some "username", .text (some m.username)),
    (some "is_active", .bool m.isActive)] true

theorem isReadAs (m : Member) : IsReadAs m.toJson m.draft :=
  isReadAs_record (.cons ⟨rfl, isReadAs_text _⟩ (.cons ⟨rfl, isReadAs_text _⟩
    (.cons ⟨rfl, isReadAs_bool _⟩ .nil)))

theorem read_draft (m : Member) : Body.member.read m.draft = .ok m := rfl

theorem mapM_read_draft (members : List Member) :
    (members.map draft).mapM Body.member.read = .ok members := by
  induction members with
  | nil => rfl
  | cons m others ih =>
      rw [List.map_cons, List.mapM_cons, read_draft, ih]
      rfl

end Member

namespace Team

/-- What the text of a team is read as. -/
def draft (t : Team) : Draft :=
  .record [(some "team_name", .text (some t.name)),
    (some "members", .list (t.members.map Member.draft) true)] true

theorem isReadAs (t : Team) : IsReadAs t.toJson t.draft := by
  have hmembers : List.Forall₂ IsReadAs (t.members.map Member.toJson)
      (t.members.map Member.draft) := by
    rw [List.forall₂_map_left_iff, List.forall₂_map_right_iff]
    exact List.forall₂_same.2 fun m _ => m.isReadAs
  exact isReadAs_record (.cons ⟨rfl, isReadAs_text _⟩ (.cons ⟨rfl, isReadAs_list hmembers⟩ .nil))

theorem read_draft (t : Team) : Body.newTeam.read t.draft = .ok (t.name, t.members) := by
  have hmembers : Draft.readList Body.member.read (.list (t.members.map Member.draft) true) =
      .ok t.members := by
    rw [Draft.readList, Member.mapM_read_draft]
    rfl
  -- the name is filled in first, then the members
  have hname : Form.readEntries Body.newTeam.fields
      [(some "team_name", .text (some t.name)),
        (some "members", .list (t.members.map Member.draft) true)] Body.newTeam.blank =
      (do Form.readEntries Body.newTeam.fields [] (← (some t.name, ·) <$> some <$>
        Draft.readList Body.member.read (.list (t.members.map Member.draft) true))) := rfl
  rw [hmembers] at hname
  unfold Form.read draft
  simp only [hname]
  rfl

theorem read_toJson (t : Team) :
    Body.newTeam.read (Json.draft (Utf8.encode t.toJson.render)) = .ok (t.name, t.members) := by
  rw [draft_render t.isReadAs, read_draft]

end Team

/-! ## The same team in a new store -/

/-- Users whose ids are new are put behind the others, in order. -/
theorem User.foldl_enroll_of_new {users news : List User}
    (hids : ((users ++ news).map (·.id)).Nodup) : news.foldl User.enroll users = users ++ news := by
  induction news generalizing users with
  | nil => exact (List.append_nil users).symm
  | cons u others ih =>
      have hsplit : users ++ u :: others = users ++ [u] ++ others := List.append_cons ..
      have hnew : users.any (·.id = u.id) = false := by
        rw [List.map_append, List.map_cons] at hids
        have hdisjoint := (List.nodup_append.1 hids).2.2
        rw [List.any_eq_false]
        intro v hv heq
        exact hdisjoint _ (List.mem_map_of_mem hv) _ List.mem_cons_self (of_decide_eq_true heq)
      have hfirst : User.enroll users u = users ++ [u] := by
        rw [User.enroll, hnew]
        rfl
      rw [hsplit] at hids ⊢
      rw [List.foldl_cons, hfirst, ih hids]

namespace Store

variable {s : Store} {name : TeamName}

/-- An empty store to which a team is added as it is shown elsewhere shows it so. -/
theorem team_withTeam (hids : (s.users.map (·.id)).Nodup) (name : TeamName) :
    (withTeam {} name (s.team name).members).team name = s.team name := by
  have hperm := arrange_perm (fun u v : User => u.id < v.id) (s.users.filter (·.team = name))
  have hlistedIds : (s.users.filter (·.team = name)).map (·.id) |>.Nodup :=
    nodup_keys_filter _ hids
  have hagain := arrange_users ((hperm.map _).nodup_iff.2 hlistedIds) hperm
  unfold team
  generalize arrange (fun u v : User => u.id < v.id)
    (s.users.filter (·.team = name)) = listed at hperm hagain ⊢
  have hteam : ∀ u ∈ listed, u.team = name := by
    intro u hu
    exact of_decide_eq_true (List.mem_filter.1 (hperm.mem_iff.1 hu)).2
  have hback : (listed.map User.member).map (fun m => m.user name) = listed := by
    rw [List.map_map]
    refine (List.map_congr_left fun u hu => ?_).trans (List.map_id listed)
    rw [← hteam u hu]
    rfl
  have husers : (withTeam {} name (listed.map User.member)).users = listed := by
    have hnew : ((([] : List User) ++ listed).map (·.id)).Nodup :=
      (hperm.map _).nodup_iff.2 hlistedIds
    rw [withTeam, hback]
    exact User.foldl_enroll_of_new hnew
  have hall : listed.filter (·.team = name) = listed :=
    List.filter_eq_self.2 fun u hu => decide_eq_true (hteam u hu)
  rw [husers, hall, hagain]

end Store

/-! ## Requests -/

namespace Http

/-- A request asks for a team; its name is spelled in the query. -/
structure Request.AsksForTeam (r : Request) (name : TeamName) : Prop where
  method : r.method = "GET"
  path : r.path = "/team/get"
  query : ∃ cs, Parameters.Spells (Utf8.encode name) cs ∧ r.query = "team_name".toList ++ '=' :: cs

/-- A request posts the text of a value as a new team. -/
structure Request.PostsTeam (r : Request) (v : Json) : Prop where
  method : r.method = "POST"
  path : r.path = "/team/add"
  isJson : r.hasJson = true
  body : r.body = ⟨Utf8.encode v.render, .complete⟩
  isShort : (Utf8.encode v.render).length ≤ Body.maxLength

/-- The text of a team whose names and ids keep the length rules orders this team. -/
theorem Request.PostsTeam.orders {r : Request} {t : Team} (h : r.PostsTeam t.toJson)
    (nameLength : LengthRule.accepts t.name = true)
    (memberLengths : ∀ m ∈ t.members,
      LengthRule.acceptsBytes m.userId = true ∧ LengthRule.acceptsBytes m.username = true) :
    r.Orders (.createTeam t.name t.members) 201 (some "team") := by
  have hbytes : r.body.bytes = Utf8.encode t.toJson.render := by rw [h.body]
  have hending : r.body.ending = .complete := by rw [h.body]
  refine .addTeam ⟨h.method, h.path, h.isJson, ?_, hending, ?_⟩ nameLength memberLengths
  · rw [hbytes]
    exact h.isShort
  · rw [hbytes]
    exact t.read_toJson

namespace Delivery

variable {d : Delivery} {s : Store} {name : TeamName}

/-- Whoever asks for a team is shown it, and the store stays as it is. -/
theorem outcome_of_asksForTeam (h : d.request.AsksForTeam name) (hfree : d.isHeld = false)
    (hs : s.Sound) (hteam : s.isTeam name = true) (hlength : LengthRule.accepts name = true) :
    (d.outcome s).1.status = 200 ∧ (d.outcome s).1.body = some (s.team name).toJson ∧
      d.next s = s := by
  have hhead : d.request.method ≠ "HEAD" := by
    rw [h.method]
    decide
  have hmethods : Endpoint.getTeam.methods.contains d.request.method = true := by
    rw [h.method]
    decide
  have hname : Parameters.single? "team_name" d.request.query = some name := by
    obtain ⟨cs, hcs, hquery⟩ := h.query
    rw [hquery]
    exact hcs.single? (by decide) (by decide) (by decide)
  have hdecode : Endpoint.getTeam.decode d.request = .ok (.operation (.getTeam name)) := by
    simp only [Endpoint.decode, Endpoint.parameter, hname, hlength, if_true]
    rfl
  have hrun : (Operation.getTeam name).run d.now ⟨s, d.words⟩ =
      .ok (.team (s.team name)) ⟨s, d.words⟩ :=
    Desk.map_eq_ok.2 ⟨_, Desk.getTeam_of_isTeam (hs.has .teams) (hs.has .users) hteam, rfl⟩
  have hroute : Service.route d.now d.isHeld d.request ⟨s, d.words⟩ =
      (.json 200 (s.team name).toJson, ⟨s, d.words⟩) := by
    rw [Service.route_of_decode h.path hmethods hdecode, hfree, Service.operate, hrun]
    rfl
  simp only [next, outcome, Service.respond, hroute, Service.status_finish,
    Service.body_finish _ hhead]
  exact ⟨rfl, rfl, trivial⟩

/-- Whoever posts a new team is shown it. -/
theorem outcome_of_createTeam {members : List Member}
    (h : d.request.Orders (.createTeam name members) 201 (some "team")) (hfree : d.isHeld = false)
    (hs : s.Sound) (hnew : s.isTeam name = false) :
    (d.outcome s).1.status = 201 ∧
      (d.outcome s).1.body =
        some (.record [("team", ((s.withTeam name members).team name).toJson)]) ∧
      d.next s = s.withTeam name members := by
  have hrun : (Operation.createTeam name members).run d.now ⟨s, d.words⟩ =
      .ok (.team ((s.withTeam name members).team name)) ⟨s.withTeam name members, d.words⟩ :=
    Desk.map_eq_ok.2
      ⟨_, Desk.createTeam_of_isNew (hs.has .teams) (hs.has .users) hnew members, rfl⟩
  simp only [next, outcome, Service.respond, hfree, Service.route_of_orders h, Service.operate,
    hrun, Service.status_finish, Service.body_finish _ h.method_ne_head]
  exact ⟨rfl, rfl, trivial⟩

end Delivery

end Http

namespace Store

open Delivery (outcome_of_asksForTeam outcome_of_createTeam)

/-- **Teams can be moved.**  Take any requests to a service and any team that is there then.
Whoever asks for it is shown a text; posted as it is to an empty service, if it is not too
long, this text is answered with itself under the name of the team, and whoever asks there is
shown the same again.  For the text of a team, whatever characters it has, is read as this
team. -/
theorem teams_can_be_moved :
    (∀ deliveries : List Delivery, let s := served {} deliveries
      ∀ name ∈ s.teams, let v := (s.team name).toJson
        ∀ get : Delivery, get.request.AsksForTeam name → get.isHeld = false →
          (get.outcome s).1.status = 200 ∧ (get.outcome s).1.body = some v ∧
          ∀ post : Delivery, post.request.PostsTeam v → post.isHeld = false →
            (post.outcome {}).1.status = 201 ∧
            (post.outcome {}).1.body = some (.record [("team", v)]) ∧
            (post.next {}).team name = s.team name ∧
            ∀ again : Delivery, again.request.AsksForTeam name → again.isHeld = false →
              (again.outcome (post.next {})).1.status = 200 ∧
              (again.outcome (post.next {})).1.body = some v) ∧
    ∀ t : Team,
      Body.parse Body.newTeam (Utf8.encode t.toJson.render) = .ok (t.name, t.members) := by
  constructor
  · intro deliveries s name hname v get hget hfree
    have hs : s.Sound := sound_served deliveries
    have hlengths : s.KeepsLengths := keepsLengths_served deliveries
    have hteam : s.isTeam name = true := isTeam_iff.2 hname
    have hlength := hlengths.teamNames name hname
    have hmembers : ∀ m ∈ (s.team name).members,
        LengthRule.acceptsBytes m.userId = true ∧ LengthRule.acceptsBytes m.username = true := by
      intro m hm
      obtain ⟨u, hu, -, rfl⟩ := mem_members_team.1 hm
      exact hlengths.users u hu
    obtain ⟨hstatus, hbody, -⟩ := outcome_of_asksForTeam hget hfree hs hteam hlength
    refine ⟨hstatus, hbody, ?_⟩
    intro post hpost hpostFree
    have horders : post.request.Orders (.createTeam name (s.team name).members) 201
        (some "team") := hpost.orders hlength hmembers
    obtain ⟨hcreated, hshown, hnext⟩ := outcome_of_createTeam horders hpostFree sound_empty rfl
    have hsame : (withTeam {} name (s.team name).members).team name = s.team name :=
      team_withTeam hs.consistent.userKeys name
    have hsound : (post.next {}).Sound := sound_served [post]
    have hthere : (post.next {}).isTeam name = true := by
      rw [hnext]
      exact isTeam_iff.2 List.mem_cons_self
    rw [hsame] at hshown
    rw [← hnext] at hsame
    refine ⟨hcreated, hshown, hsame, ?_⟩
    intro again hagain hagainFree
    obtain ⟨hfound, hagainShown, -⟩ :=
      outcome_of_asksForTeam hagain hagainFree hsound hthere hlength
    rw [hsame] at hagainShown
    exact ⟨hfound, hagainShown⟩
  · intro t
    rw [Body.parse, t.read_toJson]
    rfl

/-- A team whose texts need care: quotes, a backslash, control characters, and characters of
several bytes. -/
def aCarefulTeam : Team := ⟨"\"\\\n+&é", [⟨"%41\x01", "😀", true⟩]⟩

/-- It is posted. -/
def aCarefulPost : Delivery where
  request := {
    method := "POST"
    path := "/team/add"
    headers := [("content-type", "application/json")]
    body := ⟨Utf8.encode aCarefulTeam.toJson.render, .complete⟩ }
  words := default

/-- It is asked for. -/
def aCarefulQuery : Delivery where
  request := {
    method := "GET"
    path := "/team/get"
    query := "team_name".toList ++ '=' :: Percent.encode (Utf8.encode aCarefulTeam.name) }
  words := default

/-- What is shown of it can be posted, and is then shown there. -/
theorem aCarefulTeam_moved :
    let s := served {} [aCarefulPost]
    aCarefulTeam.name ∈ s.teams ∧ s.team aCarefulTeam.name = aCarefulTeam ∧
      aCarefulQuery.request.AsksForTeam aCarefulTeam.name ∧
      aCarefulPost.request.PostsTeam aCarefulTeam.toJson ∧
      (aCarefulQuery.outcome s).1.body = some aCarefulTeam.toJson ∧
      (aCarefulPost.outcome {}).1.body = some (.record [("team", aCarefulTeam.toJson)]) ∧
      (aCarefulQuery.outcome (aCarefulPost.next {})).1.body = some aCarefulTeam.toJson := by
  have hname : aCarefulTeam.name ∈ (served {} [aCarefulPost]).teams := by decide +kernel
  have hteam : (served {} [aCarefulPost]).team aCarefulTeam.name = aCarefulTeam := by
    decide +kernel
  have hasks : aCarefulQuery.request.AsksForTeam aCarefulTeam.name :=
    ⟨rfl, rfl, _, Parameters.spells_encode _, rfl⟩
  have hposts : aCarefulPost.request.PostsTeam aCarefulTeam.toJson :=
    ⟨rfl, rfl, by decide +kernel, rfl, by decide +kernel⟩
  have hmoved := teams_can_be_moved.1 [aCarefulPost] aCarefulTeam.name hname
  rw [hteam] at hmoved
  obtain ⟨-, hshown, hrest⟩ := hmoved aCarefulQuery hasks rfl
  obtain ⟨-, hcreated, -, hthere⟩ := hrest aCarefulPost hposts rfl
  exact ⟨hname, hteam, hasks, hposts, hshown, hcreated, (hthere aCarefulQuery hasks rfl).2⟩

end Store

end ReviewDesk
