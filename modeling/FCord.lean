import FCord.LTS.Basic
import FCord.Data.Table
import FCord.Data.PromiseQueue
import FCord.Data.Json
import FCord.Data.JsonRoundTrip
import FCord.Data.Number
import FCord.Recordings.Detail
import FCord.Upload.Queue
import FCord.Upload.Store
import FCord.Upload.Consent
import FCord.Upload.Process
import FCord.Upload.Service
import FCord.Upload.Turns
import FCord.Upload.Slots
import FCord.Upload.Writer
import FCord.Upload.Ownership
import FCord.Upload.Stranding
import FCord.Upload.Evidence
import FCord.Upload.Transcription
import FCord.Auth.Agreement
import FCord.Auth.SaveSession
import FCord.Auth.Bootstrap
import FCord.Transcript.Store
import FCord.Upload.Completion
import FCord.Upload.Wakeup
import FCord.Transcript.Crossing
import FCord.Search.Screen
import FCord.App.Logout
import FCord.Recordings.Favourites
import FCord.Recordings.Newest
import FCord.Recordings.Optimistic
import FCord.Recordings.Polling
import FCord.Recordings.Status
import FCord.Transcript.Edits
import FCord.Upload.Attempts
import FCord.Upload.Rows
import FCord.Upload.Backoff
import FCord.Upload.Draining
import FCord.Upload.Answers
import FCord.Upload.Bytes
import FCord.Upload.Transfer
import FCord.Upload.UrlCache
import FCord.Transcript.Api
import FCord.Transcript.Timestamp
import FCord.Transcript.Tabs
import FCord.Transcript.Original
import FCord.Transcript.Alerts
import FCord.Data.Mru
import FCord.Search.Recent
import FCord.Recordings.Reprocess
import FCord.LTS.Path
import FCord.Upload.Origins
import FCord.Upload.Progress
import FCord.Upload.Endings
import FCord.Api.Client
import FCord.Auth.Requests
import FCord.Recordings.Shown
import FCord.Recordings.Refreshing
import FCord.Session.Screen
import FCord.Session.Saving
import FCord.App.Onboarding
import FCord.Auth.Providers
import FCord.Auth.Restarts
import FCord.Data.UriComponent
import FCord.Api.Endpoints
import FCord.App.MainStack
import FCord.Auth.LoginScreen
import FCord.Upload.Protocol
