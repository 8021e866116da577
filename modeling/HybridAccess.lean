import HybridAccess.Notification
import HybridAccess.Host.Machine
import HybridAccess.Main
import HybridAccess.Client
import HybridAccess.Config.File
import HybridAccess.Dhcp.Script
import HybridAccess.Dhcp.Negotiation
import HybridAccess.CommandLine
import HybridAccess.Config.Document
import HybridAccess.Toml.Document
import HybridAccess.Toml.Text
import HybridAccess.Interface
import HybridAccess.Value
import HybridAccess.Config.Reading
import HybridAccess.Bytes
import HybridAccess.Log
import HybridAccess.Duration.Span
import HybridAccess.Address.IPv6
import HybridAccess.Message.Basic
import HybridAccess.Reorder.Buffer
import HybridAccess.Reorder.Policy
import HybridAccess.Frame
import HybridAccess.Session.State
import HybridAccess.Data.Egress
import HybridAccess.Data.Ingress
import HybridAccess.Data.Plane
import HybridAccess.Dhcp.Report
import HybridAccess.Control.Inbound
import HybridAccess.Control.Outbound
import HybridAccess.Control.Controller
import HybridAccess.Control.Rehearsal
import HybridAccess.Proofs.Reorder.Increasing
import HybridAccess.Proofs.Reorder.InOrder
import HybridAccess.Proofs.Data.Account
import HybridAccess.Proofs.Control.Announced
import HybridAccess.Proofs.Control.Renewal
import HybridAccess.Proofs.Control.Silence
import HybridAccess.Proofs.Control.Echo
import HybridAccess.Proofs.Control.Staging
import HybridAccess.Proofs.Message.Exact
import HybridAccess.Proofs.Data.Forged
import HybridAccess.Proofs.Data.Sending
import HybridAccess.Proofs.Control.Letters
import HybridAccess.Proofs.Control.History
import HybridAccess.Proofs.Control.Configured
import HybridAccess.Proofs.Control.Owed
import HybridAccess.Proofs.Control.Bounds
import HybridAccess.Proofs.Reorder.Reach
import HybridAccess.Proofs.Reorder.Rounds
import HybridAccess.Proofs.Control.Interleaving
import HybridAccess.Proofs.Data.Planes
import HybridAccess.Proofs.Gre.Exact
import HybridAccess.Proofs.Message.Truncated
import HybridAccess.Proofs.Control.Heeded
import HybridAccess.Proofs.Control.RoundTrip
import HybridAccess.Proofs.Address.Written
import HybridAccess.Proofs.Config.Usable
import HybridAccess.Proofs.Data.Genuine
import HybridAccess.Proofs.Dhcp.Report
import HybridAccess.Proofs.Dhcp.Printed
import HybridAccess.Proofs.Duration.Span
import HybridAccess.Proofs.Toml.Text
import HybridAccess.Proofs.Toml.Document
import HybridAccess.Proofs.Config.Document
import HybridAccess.Proofs.Config.Saved
